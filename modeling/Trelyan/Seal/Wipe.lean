import Trelyan.Seal.Runs

/-!
# The wipe of the private key

Three functions share one buffer.  `_keygen_into_buffer` allocates it and wipes it
when the key generation fails.  `keygen_sign_seal` and the worker's `main` take it
over and wipe it in a `finally`.

The proof has one lemma for each part.  `Library.keygenIntoBuffer_cases` lists the
exits of the key generation with the memory that each leaves, and `finally_wipes`
says what the `finally` adds to whatever its body does.
-/

namespace Trelyan.Seal

open Py Faults Falcon

/-- The buffer is all zero, and it was when its pages were unlocked, once since
`m`. -/
def Wiped (m m' : KeyMemory) : Prop :=
  m'.key = zeroed privkeySize ∧ m'.unlocked = zeroed privkeySize :: m.unlocked

/-- The key and its pages are as they were. -/
def Untouched (m m' : KeyMemory) : Prop := m'.key = m.key ∧ m'.unlocked = m.unlocked

/-- `_keygen_into_buffer` gets to its buffer, and so to the C key generation. -/
def Allocates (loading : Loading) : Prop := ∃ lib, loading = .loaded lib ∧ lib.initPrng.1 = 0

/-! ## The key generation -/

section Keygen

variable {loading : Loading} {m : KeyMemory}

/-- Without a buffer an exception is raised, and the memory of keys is not touched. -/
theorem keygen_unallocated (h : ¬ Allocates loading) (m : KeyMemory) :
    ∃ e m', loading.keygenIntoBuffer ⟨[], m⟩ = (.raised e, ⟨[], m'⟩) ∧ Untouched m m' := by
  cases loading with
  | failed msg => exact ⟨_, m, rfl, rfl, rfl⟩
  | missing msg => exact ⟨_, m, rfl, rfl, rfl⟩
  | loaded lib =>
    rcases lib.keygenIntoBuffer_cases m with ⟨-, msg, hrun⟩ | ⟨hprng, -⟩ | ⟨hprng, -⟩
    · exact ⟨_, _, hrun, rfl, rfl⟩
    · exact absurd ⟨lib, rfl, hprng⟩ h
    · exact absurd ⟨lib, rfl, hprng⟩ h

/-- With a buffer, either it is wiped and an exception is raised, or it is handed
over with its pages still locked.  The context of the generator is wiped. -/
theorem keygen_allocated (h : Allocates loading) (m : KeyMemory) :
    ∃ r m', loading.keygenIntoBuffer ⟨[], m⟩ = (r, ⟨[], m'⟩) ∧ m'.rng = zeroed rngSize ∧
      ((∃ e, r = .raised e ∧ Wiped m m') ∨
        ∃ pubkey, r = .returned pubkey ∧ m'.unlocked = m.unlocked) := by
  obtain ⟨lib, rfl, hprng⟩ := h
  rcases lib.keygenIntoBuffer_cases m with ⟨hne, -⟩ | ⟨-, -, msg, hrun⟩ | ⟨-, -, hrun⟩
  · exact absurd hprng hne
  · exact ⟨_, _, hrun, rfl, Or.inl ⟨_, rfl, rfl, rfl⟩⟩
  · exact ⟨_, _, hrun, rfl, Or.inr ⟨_, rfl, rfl⟩⟩

end Keygen

/-! ## The `finally` -/

section Finally

variable {α : Type} {body : Proc Error KeyMemory α} {w w' : World Error KeyMemory}
  {r : Ending Error α}

/-- Whatever the body did and however it was cut short, the buffer is wiped, and then
unlocked. -/
theorem finally_wipes (hbody : body w = (r, w')) (hquiet : w'.faults = []) (hr : r ≠ .killed) :
    Proc.tryFinally body wipeAndUnlock w = (r, ⟨[], w'.state.wipeKey.unlockPages⟩) := by
  obtain ⟨faults, m⟩ := w'
  subst hquiet
  have hcleanup : wipeAndUnlock ⟨[], m⟩ = (.returned (), ⟨[], m.wipeKey.unlockPages⟩) := rfl
  cases r with
  | returned a => exact Proc.tryFinally_returned hbody hcleanup
  | raised e => exact Proc.tryFinally_raised hbody hcleanup
  | killed => exact absurd rfl hr

theorem wiped_unlockPages (m : KeyMemory) : Wiped m m.wipeKey.unlockPages := ⟨rfl, rfl⟩

theorem Wiped.of_unlocked {m m' m'' : KeyMemory} (h : Wiped m' m'')
    (hm : m'.unlocked = m.unlocked) : Wiped m m'' := ⟨h.1, hm ▸ h.2⟩

/-- A body that reads, with its `finally`. -/
theorem finally_of_reads (hbody : body.Reads) (m : KeyMemory) :
    ∃ r, Proc.tryFinally body wipeAndUnlock ⟨[], m⟩ = (r, ⟨[], m.wipeKey.unlockPages⟩) ∧
      r ≠ .killed := by
  obtain ⟨r, hrun, hr⟩ := hbody m
  exact ⟨r, finally_wipes hrun rfl hr, hr⟩

end Finally

/-! ## The two bodies -/

section Bodies

variable {signer : Signer} {args : Arguments} {pubkey : Bytes} {limits : Limits}

theorem signAndVerify_reads : (signAndVerify signer args pubkey).Reads := by
  refine (reads_call _).bind fun msg => reads_get.bind fun memory => ?_
  refine Proc.Reads.bind ((reads_call _).tryExcept fun e => reads_raise _) fun sig => ?_
  refine (reads_call _).bind fun _ => (reads_call _).bind fun verified => ?_
  cases verified with
  | true => exact reads_pure _
  | false => exact reads_raise _

theorem respond_reads (returncode : Int) (doc : Doc) : (respond limits returncode doc).Reads :=
  (reads_call _).bind fun _ => reads_pure _

theorem workerSign_reads (key msg : Bytes) : (workerSign limits signer key msg).Reads := by
  refine ((reads_call _).bind fun sig => reads_pure _).tryExcept fun e => ?_
  split
  · exact (respond_reads _ _).bind fun _ => reads_pure _
  · exact reads_raise _

theorem workerSignAndVerify_reads : (workerSignAndVerify limits signer args pubkey).Reads := by
  refine (reads_call _).bind fun msg => reads_get.bind fun memory => ?_
  refine Proc.Reads.bind (workerSign_reads _ _) fun outcome => ?_
  cases outcome with
  | inl answer => exact reads_pure _
  | inr sig =>
    refine (reads_call _).bind fun fails => ?_
    cases fails with
    | true => exact (respond_reads _ _).bind fun _ => reads_pure _
    | false => exact reads_pure _

end Bodies

/-! ## The calls -/

/-- A signer with the key generation of the class, and any `sign` and `verify`. -/
def keyedSigner (loading : Loading) (sign : Bytes → Bytes → Except Error Bytes)
    (verify : Bytes → Bytes → Bytes → Except Error Bool) : Signer :=
  ⟨loading.keygenIntoBuffer, sign, verify⟩

section Calls

variable {σ : Type} {limits : Limits} {store : SealStore σ} {loading : Loading}
  {sign : Bytes → Bytes → Except Error Bytes} {verify : Bytes → Bytes → Bytes → Except Error Bool}
  {args : Arguments} {s s' : σ} {protections : Protections}

theorem keygenSignVerify_wipes
    (hsealed : store.isSealed args.cellId ⟨[], s⟩ = (.returned false, ⟨[], s'⟩))
    (hloading : Allocates loading) (m : KeyMemory) :
    Wiped m (keygenSignVerify limits store (keyedSigner loading sign verify) args
      ⟨[], (s, m)⟩).2.state.2 := by
  obtain ⟨r, m', hrun, -, h⟩ := keygen_allocated hloading m
  have hrun : (keyedSigner loading sign verify).keygenIntoBuffer ⟨[], m⟩ = (r, ⟨[], m'⟩) := hrun
  unfold keygenSignVerify
  rw [Proc.bind_returned (Proc.onFst_run hsealed), if_neg (by decide)]
  rcases h with ⟨e, rfl, hwiped⟩ | ⟨pubkey, rfl, hunlocked⟩
  · rw [Proc.bind_raised (Proc.onSnd_run hrun)]
    exact hwiped
  · rw [Proc.bind_returned (Proc.onSnd_run hrun)]
    obtain ⟨r, hbody, hr⟩ := finally_of_reads signAndVerify_reads m'
    have hwiped := (wiped_unlockPages m').of_unlocked hunlocked
    cases r with
    | returned sig =>
      rw [Proc.bind_returned (Proc.onSnd_run hbody)]
      exact hwiped
    | raised e =>
      rw [Proc.bind_raised (Proc.onSnd_run hbody)]
      exact hwiped
    | killed => exact absurd rfl hr

theorem keygenSignVerify_untouched
    (h : (store.isSealed args.cellId ⟨[], s⟩).1 ≠ .returned false ∨
      (store.isSealed args.cellId ⟨[], s⟩).2.faults = [] ∧ ¬ Allocates loading) (m : KeyMemory) :
    Untouched m (keygenSignVerify limits store (keyedSigner loading sign verify) args
      ⟨[], (s, m)⟩).2.state.2 := by
  unfold keygenSignVerify
  cases hsealed : store.isSealed args.cellId ⟨[], s⟩ with
  | mk r w' =>
    obtain ⟨faults, s'⟩ := w'
    rw [hsealed] at h
    cases r with
    | returned sealed =>
      rw [Proc.bind_returned (Proc.onFst_run hsealed)]
      cases sealed with
      | true => exact ⟨rfl, rfl⟩
      | false =>
        rcases h with h | ⟨rfl, h⟩
        · exact absurd rfl h
        · obtain ⟨e, m', hrun, huntouched⟩ := keygen_unallocated h m
          have hrun : (keyedSigner loading sign verify).keygenIntoBuffer ⟨[], m⟩ =
              (.raised e, ⟨[], m'⟩) := hrun
          rw [if_neg (by decide), Proc.bind_raised (Proc.onSnd_run hrun)]
          exact huntouched
    | raised e =>
      rw [Proc.bind_raised (Proc.onFst_run hsealed)]
      exact ⟨rfl, rfl⟩
    | killed =>
      rw [Proc.bind_killed (Proc.onFst_run hsealed)]
      exact ⟨rfl, rfl⟩

/-- When the key generation fails, so does the `try` around it. -/
theorem workerKeygen_of_raised {signer : Signer} {e : Error} {m m' : KeyMemory}
    (hrun : signer.keygenIntoBuffer ⟨[], m⟩ = (.raised e, ⟨[], m'⟩)) :
    ∃ r, workerKeygen limits signer ⟨[], m⟩ = (r, ⟨[], m'⟩) ∧ r ≠ .killed ∧
      ∀ pubkey, r ≠ .returned (.inr pubkey) := by
  unfold workerKeygen
  rw [Proc.tryExcept_raised (Proc.bind_raised hrun _)]
  split
  · obtain ⟨r, hrespond, hr⟩ := @respond_reads limits 3
      (failureDoc ("keygen failed: " ++ reprError e)) m'
    cases r with
    | returned answer =>
      refine ⟨.returned (.inl answer), ?_, nofun, nofun⟩
      rw [Proc.bind_returned hrespond]
      rfl
    | raised e' => exact ⟨.raised e', Proc.bind_raised hrespond _, nofun, nofun⟩
    | killed => exact absurd rfl hr
  · exact ⟨.raised e, rfl, nofun, nofun⟩

/-- From the key generation on, `main` leaves the memory as a failed generation did. -/
theorem workerSeal_of_raised {signer : Signer} {e : Error} {m m' : KeyMemory}
    (hrun : signer.keygenIntoBuffer ⟨[], m⟩ = (.raised e, ⟨[], m'⟩)) :
    (workerSeal limits protections signer args ⟨[], m⟩).2.state = m' := by
  unfold workerSeal
  obtain ⟨r, hkeygen, hr, hpubkey⟩ := @workerKeygen_of_raised limits _ _ _ _ hrun
  cases r with
  | returned outcome =>
    rw [Proc.bind_returned hkeygen]
    cases outcome with
    | inl answer => rfl
    | inr pubkey => exact absurd rfl (hpubkey pubkey)
  | raised e' => rw [Proc.bind_raised hkeygen]
  | killed => exact absurd rfl hr

/-- With a key, `main` leaves the memory as its `finally` does. -/
theorem workerSeal_of_returned {signer : Signer} {pubkey : Bytes} {m m' : KeyMemory}
    (hrun : signer.keygenIntoBuffer ⟨[], m⟩ = (.returned pubkey, ⟨[], m'⟩)) :
    (workerSeal limits protections signer args ⟨[], m⟩).2.state = m'.wipeKey.unlockPages := by
  unfold workerSeal
  rw [Proc.bind_returned (workerKeygen_of_returned hrun)]
  dsimp only
  obtain ⟨r, hbody, hr⟩ := finally_of_reads
    (@workerSignAndVerify_reads signer args pubkey limits) m'
  cases r with
  | returned outcome =>
    rw [Proc.bind_returned hbody]
    cases outcome with
    | inl answer => rfl
    | inr sig =>
      obtain ⟨r, hrespond, -⟩ := @respond_reads limits 0 (successDoc pubkey sig protections)
        m'.wipeKey.unlockPages
      dsimp only
      rw [hrespond]
  | raised e => rw [Proc.bind_raised hbody]
  | killed => exact absurd rfl hr

theorem workerSeal_wipes (hloading : Allocates loading) (m : KeyMemory) :
    Wiped m (workerSeal limits protections (keyedSigner loading sign verify) args
      ⟨[], m⟩).2.state := by
  obtain ⟨r, m', hrun, -, ⟨e, rfl, hwiped⟩ | ⟨pubkey, rfl, hunlocked⟩⟩ :=
    keygen_allocated hloading m
  · rw [workerSeal_of_raised hrun]
    exact hwiped
  · rw [workerSeal_of_returned hrun]
    exact (wiped_unlockPages m').of_unlocked hunlocked

theorem workerSeal_untouched (hloading : ¬ Allocates loading) (m : KeyMemory) :
    Untouched m (workerSeal limits protections (keyedSigner loading sign verify) args
      ⟨[], m⟩).2.state := by
  obtain ⟨e, m', hrun, huntouched⟩ := keygen_unallocated hloading m
  rw [workerSeal_of_raised hrun]
  exact huntouched

/-- The request asks for a key. -/
def Seals (limits : Limits) (protections : Protections) (stdin : Bytes) : Prop :=
  ∃ request, parseRequest limits stdin = .ok request ∧
    ¬ (request.requireLocked = true ∧ protections.mlockall = false)

theorem workerMain_of_seals {signer : Signer} {stdin : Bytes} (h : Seals limits protections stdin) :
    ∃ args, workerMain limits protections signer stdin =
      workerSeal limits protections signer args := by
  obtain ⟨request, hparse, hlocked⟩ := h
  refine ⟨request.args, ?_⟩
  unfold workerMain
  rw [hparse]
  dsimp only
  rw [if_neg hlocked]

/-- Otherwise the memory of keys is not used at all. -/
theorem workerMain_of_refuses {signer : Signer} {stdin : Bytes}
    (h : ¬ Seals limits protections stdin) :
    (workerMain limits protections signer stdin).Reads := by
  unfold workerMain
  cases hparse : parseRequest limits stdin with
  | error e =>
    dsimp only
    split
    · exact respond_reads _ _
    · exact reads_raise _
  | ok request =>
    dsimp only
    split
    · exact respond_reads _ _
    · rename_i hlocked
      exact absurd ⟨request, hparse, hlocked⟩ h

end Calls

/-! ## Every path -/

/-- What is wiped on every path.  The C functions and what `sign` and `verify` return or raise
are arbitrary. -/
structure WipedOnEveryPath (limits : Limits) : Prop where
  /-- A key generation that raises after the C one ran. -/
  keygenRaised : ∀ (lib : Library) (m : KeyMemory) e w', lib.initPrng.1 = 0 →
    lib.keygenIntoBuffer ⟨[], m⟩ = (.raised e, w') →
      Wiped m w'.state ∧ w'.state.rng = zeroed rngSize
  keygenReturned : ∀ (lib : Library) (m : KeyMemory) pubkey w',
    lib.keygenIntoBuffer ⟨[], m⟩ = (.returned pubkey, w') → w'.state.rng = zeroed rngSize
  /-- The `finally` of both, around any body, with any exception at any of its steps. -/
  guarded : ∀ {α : Type} (body : Proc Error KeyMemory α) w r w', body w = (r, w') →
    w'.faults = [] → r ≠ .killed →
      (Proc.tryFinally body wipeAndUnlock w).1 = r ∧
        Wiped w'.state (Proc.tryFinally body wipeAndUnlock w).2.state
  callWipes : ∀ {σ : Type} (store : SealStore σ) loading sign verify args s s' m,
    store.isSealed args.cellId ⟨[], s⟩ = (.returned false, ⟨[], s'⟩) → Allocates loading →
      Wiped m (keygenSignSeal limits store (keyedSigner loading sign verify) args
        ⟨[], (s, m)⟩).2.state.2
  /-- Without a buffer there is nothing to wipe. -/
  callLeaves : ∀ {σ : Type} (store : SealStore σ) loading sign verify args s m,
    ((store.isSealed args.cellId ⟨[], s⟩).1 ≠ .returned false ∨
      (store.isSealed args.cellId ⟨[], s⟩).2.faults = [] ∧ ¬ Allocates loading) →
      Untouched m (keygenSignSeal limits store (keyedSigner loading sign verify) args
        ⟨[], (s, m)⟩).2.state.2
  mainWipes : ∀ protections loading sign verify stdin m, Seals limits protections stdin →
    Allocates loading →
      Wiped m (workerMain limits protections (keyedSigner loading sign verify) stdin
        ⟨[], m⟩).2.state
  mainLeaves : ∀ protections loading sign verify stdin m,
    ¬ (Seals limits protections stdin ∧ Allocates loading) →
      Untouched m (workerMain limits protections (keyedSigner loading sign verify) stdin
        ⟨[], m⟩).2.state

theorem wiped_on_every_path (limits : Limits) : WipedOnEveryPath limits where
  keygenRaised lib m e w' hprng hrun := by
    obtain ⟨r, m', hrun', hrng, ⟨e', -, hwiped⟩ | ⟨pubkey, rfl, -⟩⟩ :=
      keygen_allocated ⟨lib, rfl, hprng⟩ m
    · have hboth := hrun.symm.trans hrun'
      cases hboth
      exact ⟨hwiped, hrng⟩
    · have hboth := hrun.symm.trans hrun'
      cases hboth
  keygenReturned lib m pubkey w' hrun := by
    rcases lib.keygenIntoBuffer_cases m with ⟨-, msg, hrun'⟩ | ⟨-, -, msg, hrun'⟩ | ⟨-, -, hrun'⟩
    all_goals
      have hboth := hrun.symm.trans hrun'
      cases hboth
    rfl
  guarded body w r w' hbody hquiet hr := by
    rw [finally_wipes hbody hquiet hr]
    exact ⟨rfl, wiped_unlockPages w'.state⟩
  callWipes store loading sign verify args s s' m hsealed hloading := by
    unfold keygenSignSeal
    rw [Proc.bind_onFst_snd]
    exact keygenSignVerify_wipes hsealed hloading m
  callLeaves store loading sign verify args s m h := by
    unfold keygenSignSeal
    rw [Proc.bind_onFst_snd]
    exact keygenSignVerify_untouched h m
  mainWipes protections loading sign verify stdin m hseals hloading := by
    obtain ⟨args, heq⟩ := @workerMain_of_seals limits _ (keyedSigner loading sign verify) _ hseals
    rw [heq]
    exact workerSeal_wipes hloading m
  mainLeaves protections loading sign verify stdin m h := by
    by_cases hseals : Seals limits protections stdin
    · obtain ⟨args, heq⟩ := @workerMain_of_seals limits _ (keyedSigner loading sign verify) _ hseals
      rw [heq]
      exact workerSeal_untouched (fun hloading => h ⟨hseals, hloading⟩) m
    · obtain ⟨r, hrun, -⟩ := @workerMain_of_refuses limits _ (keyedSigner loading sign verify) _
        hseals m
      rw [hrun]
      exact ⟨rfl, rfl⟩

end Trelyan.Seal
