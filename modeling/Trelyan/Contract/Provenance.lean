import Trelyan.Contract.Cells

/-!
# Where a record comes from

Every stored record was written by one committed call of `inscribe`, whose
sender is the inscriber, was the recorded owner, and held the unit.  The
signature that call presented verifies under the key that is still in the
`k_` box, so the record can be verified again from what is stored, by anyone
and at any later time.

The proof looks for the step that created the record, reads its guard off
`Effect.record_creation`, and carries the facts to the end of the run by
permanence.
-/

namespace Trelyan.Contract

open Atomic

/-- What the boxes say about a record of the cell `c` of the application
`id`.  It can be checked from the boxes and some signature. -/
structure Verifiable (net : Network) (id : UInt64) (s : Chain) (c : UInt64)
    (r : InscriptionRecord) : Prop where
  owner : s.controllingOwner c = some r.inscriber.bytes
  cell : r.cellId = c
  version : r.version = 1
  uri : r.payloadUri.native.length ≤ 128
  signature : ∃ pubkey sig, s.committedPubkey c = some pubkey ∧ sig.length ≤ 1423 ∧
    net.falconVerify (domainTag ++ itob id ++ itob c ++ r.artifactHash.bytes ++
      net.genesisHash.bytes) sig pubkey = true

/-- The transaction `t`, executed in `s`, is the call that wrote the record. -/
structure Inscribed (s : Chain) (t : Transaction) (c : UInt64) (r : InscriptionRecord) :
    Prop where
  call : ∃ call sig, t = .appCall call ∧ call.sender = r.inscriber ∧
    Method.decode call.appArgs = .ok (.inscribe c r.artifactHash sig r.payloadUri)
  owner : s.controllingOwner c = some r.inscriber.bytes
  holds : s.Holds r.inscriber c
  round : s.round = r.inscribedRound

/-- The step that creates a record: the record it writes is verifiable, and
the step is the call that wrote it. -/
theorem Effect.record_origin {net : Network} {s s' : Chain} {t : Transaction} {c : UInt64}
    (h : Effect net s t s') (hnone : s.inscriptionBox c = none)
    (hcreated : s'.inscriptionBox c ≠ none) :
    ∃ app r, s'.app = some app ∧ s'.inscriptionBox c = some r.encode ∧
      Verifiable net app.id s' c r ∧ Inscribed s t c r := by
  obtain ⟨call, app, artifactHash, sig, uri, rfl, happ, hm, hguard, rfl⟩ :=
    h.record_creation hnone hcreated
  obtain ⟨pubkey, hpubkey, hverified⟩ := hguard.verified
  refine ⟨_, ⟨insVersion, c, artifactHash, s.round, call.sender, uri⟩, rfl, ?_, ?_, ?_⟩
  · simp [Chain.inscriptionBox]
  · refine ⟨?_, rfl, rfl, hguard.uri_length, pubkey, sig.native, ?_, hguard.sig_length, hverified⟩
    · simp [Chain.controllingOwner, hguard.owner, Chain.context]
    · simp [Chain.committedPubkey, hpubkey]
  · refine ⟨⟨call, sig, rfl, rfl, hm⟩, ?_, hguard.holds, rfl⟩
    rw [Chain.controllingOwner, happ, Option.bind_some, hguard.owner]
    rfl

/-- A verifiable record stays verifiable. -/
theorem Verifiable.run {net : Network} {s : Chain} {app : App} {c : UInt64}
    {r : InscriptionRecord} (h : Verifiable net app.id s c r) (hs : Inv net s)
    (hbox : s.inscriptionBox c = some r.encode) (events : List (Event Transaction UInt64)) :
    Verifiable net app.id ((machine net).run s events) c r := by
  obtain ⟨pubkey, sig, hpubkey, hsig, hverified⟩ := h.signature
  obtain ⟨hkeys, hrecords⟩ := run_permanent hs events c
  exact {
    owner := (hrecords _ hbox).2.trans h.owner
    cell := h.cell
    version := h.version
    uri := h.uri
    signature := ⟨pubkey, sig, hkeys _ hpubkey, hsig, hverified⟩ }

/-- The record that a committed step of the run created is the one that the
boxes hold at the end, and it is verifiable there. -/
theorem committed_record_origin {net : Network} {s : Chain}
    {events : List (Event Transaction UInt64)} {t : Transaction} {s₁ s₂ : Chain} {c : UInt64}
    (hs : Inv net s) (hc : (machine net).CommittedAt s events t s₁ s₂)
    (hnone : s₁.inscriptionBox c = none) (hcreated : s₂.inscriptionBox c ≠ none) :
    ∃ app r, ((machine net).run s events).app = some app ∧
      ((machine net).run s events).inscription c = some r ∧
      Verifiable net app.id ((machine net).run s events) c r ∧ Inscribed s₁ t c r := by
  have hinv₁ : Inv net s₁ := hc.invariant exec_inv advance_inv hs
  have hinv₂ : Inv net s₂ := exec_inv t s₁ s₂ hinv₁ hc.exec
  obtain ⟨app₂, r, happ₂, hbox, hverifiable, horigin⟩ :=
    (exec_effect hinv₁.pristine hc.exec).record_origin hnone hcreated
  obtain ⟨rest, hrest⟩ := hc.reaches
  rw [← hrest]
  obtain ⟨app, happ, hsame⟩ := run_sameApp hinv₂ happ₂ rest
  refine ⟨app, r, happ, ?_, ?_, horigin⟩
  · have hend := ((run_permanent hinv₂ rest c).2 _ hbox).1
    rw [Chain.inscriptionBox, happ, Option.bind_some] at hend
    rw [Chain.inscription, happ, Option.bind_some, AppData.inscription_eq_bind, hend,
      Option.bind_some, InscriptionRecord.decode_encode]
  · rw [hsame.id]
    exact hverifiable.run hinv₂ hbox rest

/-- Provenance.  A record that the boxes hold after a run is verifiable.  The
run committed the call that wrote it, and every committed step that created
the box is that call. -/
theorem inscription_provenance (net : Network) (events : List (Event Transaction UInt64))
    (app : App) (c : UInt64) (r : InscriptionRecord)
    (happ : ((machine net).run genesis events).app = some app)
    (hr : ((machine net).run genesis events).inscription c = some r) :
    Verifiable net app.id ((machine net).run genesis events) c r ∧
    (∃ t s₁ s₂, (machine net).CommittedAt genesis events t s₁ s₂ ∧
      s₁.inscriptionBox c = none ∧ s₂.inscriptionBox c ≠ none) ∧
    ∀ t s₁ s₂, (machine net).CommittedAt genesis events t s₁ s₂ →
      s₁.inscriptionBox c = none → s₂.inscriptionBox c ≠ none → Inscribed s₁ t c r := by
  have horigin : ∀ t s₁ s₂, (machine net).CommittedAt genesis events t s₁ s₂ →
      s₁.inscriptionBox c = none → s₂.inscriptionBox c ≠ none →
      Verifiable net app.id ((machine net).run genesis events) c r ∧ Inscribed s₁ t c r := by
    intro t s₁ s₂ hc hnone hcreated
    obtain ⟨app', r', happ', hr', hverifiable, hinscribed⟩ :=
      committed_record_origin (genesis_inv net) hc hnone hcreated
    obtain rfl : app' = app := Option.some.inj (happ'.symm.trans happ)
    obtain rfl : r' = r := Option.some.inj (hr'.symm.trans hr)
    exact ⟨hverifiable, hinscribed⟩
  obtain ⟨t, s₁, s₂, hc, -, hnone, hcreated⟩ :=
    Machine.exists_committedAt exec_inv advance_inv (Q := fun s => s.inscriptionBox c ≠ none)
      (genesis_inv net)
      (fun r s h => by rwa [Chain.inscriptionBox, advance_app])
      (by simp [genesis, Chain.inscriptionBox])
      (Chain.inscriptionBox_of_inscription hr)
  have hnone' : s₁.inscriptionBox c = none := not_not.mp hnone
  refine ⟨(horigin t s₁ s₂ hc hnone' hcreated).1, ⟨t, s₁, s₂, hc, hnone', hcreated⟩, ?_⟩
  intro t s₁ s₂ hc hnone hcreated
  exact (horigin t s₁ s₂ hc hnone hcreated).2

/-- The sample run with its inscription. -/
def sampleInscribed : List (Event Transaction UInt64) :=
  sampleSetup false ++ sampleRegistration ++ sampleInscription

def sampleInscribedApp : App := (sampleChain sampleInscribed).app.get (by decide +kernel)

theorem sampleInscribed_record : (sampleChain sampleInscribed).inscription 5 =
    some ⟨1, 5, sampleArtifact, 41, sampleOwner, ⟨[], by decide⟩⟩ := by
  decide +kernel

theorem sample_provenance :
    ∃ r, (sampleChain sampleInscribed).inscription 5 = some r ∧
      r.inscriber = sampleOwner ∧ r.inscribedRound = 41 ∧
      Verifiable sampleNetwork sampleInscribedApp.id (sampleChain sampleInscribed) 5 r := by
  refine ⟨_, sampleInscribed_record, rfl, rfl, ?_⟩
  exact (inscription_provenance sampleNetwork sampleInscribed sampleInscribedApp 5 _
    (Option.some_get _).symm sampleInscribed_record).1

end Trelyan.Contract
