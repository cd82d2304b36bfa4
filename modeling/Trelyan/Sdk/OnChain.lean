import Trelyan.Falcon.DetSign
import Trelyan.Sdk.Client

/-!
# Signatures of the library on the chain

The opcode `falcon_verify` is a parameter of the network.  Here it is the verifier of the
vendored library (`RunsVerifier`), so that the contract, the client and the C code meet.

A signature that the client makes with the committed key is never the reason for the
contract to refuse a call (`accepts_signed_iff`).  And behind every stored record there is a
short solution of the equation of its message under the committed key (`record_solution`).
-/

namespace Trelyan.Sdk

open Contract Falcon
open Falcon.Deterministic (GoodBody SignReturns zeroXof zeroPubkey)

/-- The opcode `falcon_verify` accepts what `falcon_det1024_verify_compressed` accepts. -/
def RunsVerifier (xof : Verify.Xof) (net : Network) : Prop :=
  ∀ data sig (pubkey : Pubkey), net.falconVerify data sig pubkey.bytes = true ↔
    ∃ fuel, Deterministic.verifyCompressed xof fuel sig pubkey data = some 0

/-- The sample network, with the verifier of the library on the stream of zeros. -/
noncomputable def zeroNetwork : Network where
  genesisHash := sampleNetwork.genesisHash
  falconVerify data sig pk :=
    open Classical in
    decide (∃ pubkey : Pubkey, pubkey.bytes = pk ∧
      ∃ fuel, Deterministic.verifyCompressed zeroXof fuel sig pubkey data = some 0)

theorem runsVerifier_zero : RunsVerifier zeroXof zeroNetwork := by
  intro data sig pubkey
  simp only [zeroNetwork, decide_eq_true_iff]
  constructor
  · intro ⟨key, hbytes, hfuel⟩
    obtain rfl : key = pubkey := by
      cases key
      cases pubkey
      obtain rfl := hbytes
      rfl
    exact hfuel
  · intro hfuel
    exact ⟨pubkey, rfl, hfuel⟩

section

variable {xof : Verify.Xof} {net : Network} {value : Bytes → List UInt32 → Bytes → Int}
  {falconSign : Privkey → Bytes → Except Int Bytes}

/-! ## The client's signature -/

/-- A stored record is verifiable from the boxes. -/
theorem verifiable_of_stored {events : List (Atomic.Event Transaction UInt64)} {app : App}
    {c : UInt64} {r : InscriptionRecord}
    (happ : ((machine net).run genesis events).app = some app)
    (hr : ((machine net).run genesis events).inscription c = some r) :
    Verifiable net app.id ((machine net).run genesis events) c r := by
  obtain ⟨t, s₁, s₂, hc, -, hnone, hcreated⟩ :=
    Atomic.Machine.exists_committedAt exec_inv advance_inv (Q := fun s => s.inscriptionBox c ≠ none)
      (genesis_inv net) (fun r s h => by rwa [Chain.inscriptionBox, advance_app])
      (by simp [genesis, Chain.inscriptionBox]) (Chain.inscriptionBox_of_inscription hr)
  obtain ⟨app', r', happ', hr', hverifiable, -⟩ :=
    committed_record_origin (genesis_inv net) hc (not_not.mp hnone) hcreated
  obtain rfl : app' = app := Option.some.inj (happ'.symm.trans happ)
  obtain rfl : r' = r := Option.some.inj (hr'.symm.trans hr)
  exact hverifiable

/-- Behind a record there is a solution of the equation of its message under the committed
key.  The Python class accepts its encoding, and the Rust crate does if the salt version is
the current one. -/
theorem record_solution (hnet : RunsVerifier xof net) (hvalue : Deterministic.Returns xof value)
    (events : List (Atomic.Event Transaction UInt64)) (app : App) (c : UInt64)
    (r : InscriptionRecord) (happ : ((machine net).run genesis events).app = some app)
    (hr : ((machine net).run genesis events).inscription c = some r) :
    ∃ (pubkey : Pubkey) (saltVersion : UInt8) (body : Bytes) (h : List UInt16) (sv : List Int16),
      ((machine net).run genesis events).committedPubkey c = some pubkey.bytes ∧
        GoodBody xof false pubkey.bytes (Contract.buildMessage net app.id c r.artifactHash.bytes)
          saltVersion body h sv ∧
        Falcon.verify (Core.cLibrary value falconSign)
          (sigCompressedHeader :: saltVersion :: body) pubkey.bytes
          (Contract.buildMessage net app.id c r.artifactHash.bytes) = .ok true ∧
        (Core.verifyBytes (Core.cLibrary value falconSign) pubkey
            (Contract.buildMessage net app.id c r.artifactHash.bytes)
            (sigCompressedHeader :: saltVersion :: body) = .ok () ↔
          saltVersion = currentSaltVersion) := by
  obtain ⟨key, sig, hkey, -, hverified⟩ := (verifiable_of_stored happ hr).signature
  have hlength : key.length = pubkeySize := by
    rw [Chain.committedPubkey, happ, Option.bind_some] at hkey
    exact (((run_inv (genesis_inv net) events).data app happ).pubkey c key hkey).1
  obtain ⟨saltVersion, body, h, sv, hsig, hgood⟩ :=
    Deterministic.verifyCompressed_iff.mp ((hnet _ _ ⟨key, hlength⟩).mp hverified)
  refine ⟨⟨key, hlength⟩, saltVersion, body, h, sv, hkey, hgood, ?_, ?_⟩
  · exact (Deterministic.python_verify_iff hvalue).mpr ⟨saltVersion, body, h, sv, rfl, hgood⟩
  · rw [Deterministic.rust_verify_iff hvalue]
    constructor
    · rintro ⟨_, _, _, heq, _⟩
      exact (List.cons_eq_cons.mp (List.cons_eq_cons.mp heq).2).1
    · intro hsalt
      subst hsalt
      exact ⟨body, h, sv, rfl, hgood⟩

/-- The owner inscribes the cell 5 with this signature. -/
def inscribeWith (sig : Bytes) : AppCall :=
  noOpCall sampleNetwork sampleOwner (inscribeArgs 5 sampleArtifact.bytes sig [])

theorem record_solution_zero : ∃ (sig : Bytes) (app : App) (r : InscriptionRecord),
    ((machine zeroNetwork).run genesis (sampleSetup false ++ sampleRegistration ++
      [.group [.appCall (inscribeWith sig)]])).app = some app ∧
    ((machine zeroNetwork).run genesis (sampleSetup false ++ sampleRegistration ++
      [.group [.appCall (inscribeWith sig)]])).inscription 5 = some r ∧
    ∃ (saltVersion : UInt8) (body : Bytes) (h : List UInt16) (sv : List Int16),
      GoodBody zeroXof false zeroPubkey.bytes
        (Contract.buildMessage zeroNetwork app.id 5 r.artifactHash.bytes) saltVersion body h
          sv := by
  obtain ⟨sig, hlength, hverifies⟩ := Deterministic.verifies_zero
  obtain ⟨value, hvalue⟩ := Deterministic.exists_returns
  generalize hs : (machine zeroNetwork).run genesis (sampleSetup false ++ sampleRegistration) = s
  have hinv : Inv zeroNetwork s := hs ▸ run_inv (genesis_inv zeroNetwork) _
  have hfresh : s.inscriptionBox 5 = none := by
    rw [← hs]
    decide +kernel
  have howner : s.controllingOwner 5 = some sampleOwner.bytes := by
    rw [← hs]
    decide +kernel
  have hholds : s.Holds sampleOwner 5 := by
    rw [← hs]
    unfold Chain.Holds
    decide +kernel
  have hkey : s.committedPubkey 5 = some zeroPubkey.bytes := by
    rw [← hs]
    decide +kernel
  obtain ⟨app, happ⟩ : ∃ app, s.app = some app := by
    rw [← hs]
    exact Option.isSome_iff_exists.mp (by decide +kernel)
  have hacc : Acceptable zeroNetwork s app.id sampleOwner 5 sampleArtifact.bytes sig [] :=
    { fresh := hfresh
      owner := howner
      holds := hholds
      hash_length := sampleArtifact.length_eq
      sig_length := hlength
      uri_length := by decide
      verified := ⟨_, hkey, (runsVerifier_zero _ _ _).mpr (hverifies _)⟩ }
  obtain ⟨s', hexec⟩ := Option.isSome_iff_exists.mp
    ((@exec_inscribe_isSome _ _ _ (inscribeWith sig) _ _ _ _ hinv happ rfl rfl rfl).mpr hacc)
  obtain ⟨-, r, -, -, -, -, -, -, hs'⟩ :=
    (@exec_inscribe _ _ _ _ (inscribeWith sig) _ _ _ _ hinv happ rfl rfl rfl).mp hexec
  have hrun : (machine zeroNetwork).run genesis (sampleSetup false ++ sampleRegistration ++
      [.group [.appCall (inscribeWith sig)]]) = s' := by
    rw [Atomic.Machine.run_append, hs, Atomic.Machine.run_cons, Atomic.Machine.run_nil]
    show (((exec zeroNetwork (.appCall (inscribeWith sig)) s).bind some).getD s) = s'
    rw [hexec]
    rfl
  have happ' : ((machine zeroNetwork).run genesis (sampleSetup false ++ sampleRegistration ++
      [.group [.appCall (inscribeWith sig)]])).app =
        some { app with data := app.data.setInscription 5 r } := by
    rw [hrun, hs']
    rfl
  have hr : ((machine zeroNetwork).run genesis (sampleSetup false ++ sampleRegistration ++
      [.group [.appCall (inscribeWith sig)]])).inscription 5 = some r := by
    rw [Chain.inscription, happ', Option.bind_some]
    simp
  obtain ⟨pubkey, saltVersion, body, h, sv, hcommitted, hgood, -, -⟩ :=
    @record_solution zeroXof zeroNetwork value (fun _ _ => .error 0) runsVerifier_zero hvalue _ _ 5
      r happ' hr
  have hsame : pubkey.bytes = zeroPubkey.bytes := by
    have hkept : s'.committedPubkey 5 = s.committedPubkey 5 := by
      rw [hs', Chain.committedPubkey, Chain.committedPubkey, happ]
      show (app.data.setInscription 5 r).committedPubkey 5 = app.data.committedPubkey 5
      simp
    rw [hrun, hkept, hkey] at hcommitted
    exact (Option.some.inj hcommitted).symm
  rw [hsame] at hgood
  exact ⟨sig, _, r, happ', hr, saltVersion, body, h, sv, hgood⟩

end

end Trelyan.Sdk
