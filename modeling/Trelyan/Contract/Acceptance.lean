import Trelyan.Contract.Cells

/-!
# Which inscriptions the contract accepts

`Acceptable` is the guard of `inscribe` on the chain, in terms of the raw
bytes of the call.  `inscribe_accepts_iff` says that a call with enough
resources succeeds exactly when the guard holds.  The source spreads the guard
over eight assertions, of which some are implied by others: a registered cell
always has an owner, and an argument of the static type always has 32 bytes.

Nobody but the recorded owner can make the guard fail.  The boxes of the cell
change by calls of the owner only, so an acceptable call stays acceptable as
long as the owner keeps the unit.
-/

namespace Trelyan.Contract

open Atomic

/-- The arguments of an `inscribe` call with raw byte strings. -/
def inscribeArgs (c : UInt64) (artifactHash sig uri : Bytes) : List Bytes :=
  [inscribeSelector, itob c, artifactHash, DynamicBytes.encodeBytes sig,
    DynamicBytes.encodeBytes uri]

/-- The guard C1 to C5 and the structural preconditions, on the chain. -/
structure Acceptable (net : Network) (s : Chain) (id : UInt64) (sender : Address) (c : UInt64)
    (artifactHash sig uri : Bytes) : Prop where
  fresh : s.inscriptionBox c = none
  owner : s.controllingOwner c = some sender.bytes
  holds : s.Holds sender c
  hash_length : artifactHash.length = 32
  sig_length : sig.length ≤ 1423
  uri_length : uri.length ≤ 128
  verified : ∃ pubkey, s.committedPubkey c = some pubkey ∧
    net.falconVerify (domainTag ++ itob id ++ itob c ++ artifactHash ++ net.genesisHash.bytes)
      sig pubkey = true

/-- The arguments decode exactly when the byte strings have their types. -/
theorem decode_inscribeArgs (c : UInt64) (artifactHash sig uri : Bytes) (m : Method) :
    Method.decode (inscribeArgs c artifactHash sig uri) = .ok m ↔
      ∃ (h : artifactHash.length = 32) (hs : sig.length < 65536) (hu : uri.length < 65536),
        m = .inscribe c ⟨artifactHash, h⟩ ⟨sig, hs⟩ ⟨uri, hu⟩ := by
  have hne : inscribeSelector ≠ registerCellSelector := by decide
  simp only [Method.decode, inscribeArgs, appArg, List.getElem?_cons_zero,
    List.getElem?_cons_succ, bind, Except.bind, if_neg hne, if_pos, decodeUint64_itob,
    decodeDynamic_encodeBytes, decodeFixed32, FixedBytes.ofBytes?]
  by_cases h : artifactHash.length = 32
  · by_cases hs : sig.length < 65536
    · by_cases hu : uri.length < 65536
      · simp [h, hs, hu, eq_comm]
      · simp [h, hs, hu]
    · simp [h, hs]
  · simp [h]

/-- The guard of the method and the guard on the chain. -/
theorem inscribeGuard_iff {net : Network} {s : Chain} {app : App} {sender : Address}
    {c : UInt64} {artifactHash sig uri : Bytes} (happ : s.app = some app)
    (h : artifactHash.length = 32) :
    InscribeGuard net (s.context app.id sender) c ⟨artifactHash, h⟩ sig uri app.data ↔
      Acceptable net s app.id sender c artifactHash sig uri := by
  have hk : s.committedPubkey c = app.data.committedPubkey c := by
    rw [Chain.committedPubkey, happ, Option.bind_some]
  have ho : s.controllingOwner c = app.data.controllingOwner c := by
    rw [Chain.controllingOwner, happ, Option.bind_some]
  have hi : s.inscriptionBox c = app.data.inscriptionBox c := by
    rw [Chain.inscriptionBox, happ, Option.bind_some]
  constructor
  · intro hguard
    refine ⟨?_, ?_, hguard.holds, h, hguard.sig_length, hguard.uri_length, ?_⟩
    · rw [hi]
      exact AppData.inscriptionBox_of_not_inscribed hguard.fresh
    · rw [ho]
      exact hguard.owner
    · rw [hk]
      exact hguard.verified
  · intro hacc
    refine ⟨hacc.sig_length, hacc.uri_length, hacc.holds, ?_, ?_, ?_⟩
    · rw [← ho]
      exact hacc.owner
    · rw [AppData.inscribed_eq_isSome, ← hi, hacc.fresh]
      rfl
    · rw [← hk]
      exact hacc.verified

/-- What an inscription call does, in full. -/
theorem exec_inscribe {net : Network} {s s' : Chain} {app : App} {call : AppCall} {c : UInt64}
    {artifactHash sig uri : Bytes} (hs : Inv net s) (happ : s.app = some app)
    (hresourced : call.resourced = true) (hnoOp : call.onCompletion = .noOp)
    (hargs : call.appArgs = inscribeArgs c artifactHash sig uri) :
    exec net (.appCall call) s = some s' ↔
      Acceptable net s app.id call.sender c artifactHash sig uri ∧
      ∃ r : InscriptionRecord, r.version = 1 ∧ r.cellId = c ∧
        r.artifactHash.bytes = artifactHash ∧ r.inscribedRound = s.round ∧
        r.inscriber = call.sender ∧ r.payloadUri.native = uri ∧
        s' = s.setData app (app.data.setInscription c r) := by
  have hp : app.Pristine net := hs.pristine app happ
  constructor
  · intro h
    cases hm : Method.decode call.appArgs with
    | error e =>
      rw [exec_appCall_undecodable happ hp hnoOp hm] at h
      cases h
    | ok m =>
      have hadm := (exec_appCall_admissible h).1
      obtain ⟨data, hdata, rfl⟩ := (exec_appCall_noOp happ hp hadm hnoOp hm).mp h
      rw [hargs] at hm
      obtain ⟨hhash, hsig, huri, rfl⟩ := (decode_inscribeArgs c artifactHash sig uri m).mp hm
      obtain ⟨hguard, rfl⟩ := inscribe_eq_ok.mp hdata
      exact ⟨(inscribeGuard_iff happ hhash).mp hguard, _, rfl, rfl, rfl, rfl, rfl, rfl, rfl⟩
  · intro h
    rcases h with ⟨hacc, r, hversion, hcell, hhash, hround, hinscriber, huri, rfl⟩
    -- The owner that the boxes hold is not the zero address, so the sender is not.
    have hsender : call.sender ≠ 0 := by
      intro hzero
      have howner := hacc.owner
      rw [Chain.controllingOwner, happ, Option.bind_some, hzero] at howner
      exact ((hs.data app happ).owner c _ howner).2 rfl
    have hsig : sig.length < 65536 := Nat.lt_of_le_of_lt hacc.sig_length (by omega)
    have huri' : uri.length < 65536 := Nat.lt_of_le_of_lt hacc.uri_length (by omega)
    have hm := (decode_inscribeArgs c artifactHash sig uri _).mpr
      ⟨hacc.hash_length, hsig, huri', rfl⟩
    rw [← hargs] at hm
    refine (exec_appCall_noOp happ hp ⟨hsender, hresourced⟩ hnoOp hm).mpr ⟨_, ?_, rfl⟩
    refine inscribe_eq_ok.mpr ⟨(inscribeGuard_iff happ hacc.hash_length).mpr hacc, ?_⟩
    obtain ⟨version, cellId, ⟨bytes, hbytes⟩, round, inscriber, ⟨native, hnative⟩⟩ := r
    cases hversion
    cases hcell
    cases hhash
    cases hround
    cases hinscriber
    cases huri
    rfl

/-- An inscription call with enough resources succeeds exactly when it is
acceptable. -/
theorem exec_inscribe_isSome {net : Network} {s : Chain} {app : App} {call : AppCall}
    {c : UInt64} {artifactHash sig uri : Bytes} (hs : Inv net s) (happ : s.app = some app)
    (hresourced : call.resourced = true) (hnoOp : call.onCompletion = .noOp)
    (hargs : call.appArgs = inscribeArgs c artifactHash sig uri) :
    (exec net (.appCall call) s).isSome = true ↔
      Acceptable net s app.id call.sender c artifactHash sig uri := by
  constructor
  · intro h
    obtain ⟨s', hs'⟩ := Option.isSome_iff_exists.mp h
    exact ((exec_inscribe hs happ hresourced hnoOp hargs).mp hs').1
  · intro hacc
    have huri : uri.length < 65536 := Nat.lt_of_le_of_lt hacc.uri_length (by omega)
    rw [(exec_inscribe hs happ hresourced hnoOp hargs).mpr ⟨hacc,
      ⟨1, c, ⟨artifactHash, hacc.hash_length⟩, s.round, call.sender, ⟨uri, huri⟩⟩,
      rfl, rfl, rfl, rfl, rfl, rfl, rfl⟩]
    rfl

/-- An acceptable call stays acceptable while its sender makes no successful
call and keeps the unit. -/
theorem Acceptable.run {net : Network} {s : Chain} {app : App} {sender : Address} {c : UInt64}
    {artifactHash sig uri : Bytes} (hs : Inv net s)
    (h : Acceptable net s app.id sender c artifactHash sig uri)
    {events : List (Event Transaction UInt64)}
    (hidle : ∀ call s₁ s₂, (machine net).CommittedAt s events (.appCall call) s₁ s₂ →
      call.sender ≠ sender)
    (hholds : ((machine net).run s events).Holds sender c) :
    Acceptable net ((machine net).run s events) app.id sender c artifactHash sig uri := by
  have hsteps := run_cell_steps hs events c
  have howner : (s.cell c).owner? = some sender.bytes := (hs.cell_views c).2.1.trans h.owner
  have hsame := hsteps.eq_of_owner_idle howner (by
    intro ⟨call, s₁, s₂, hc, hbytes⟩
    exact hidle call s₁ s₂ hc (FixedBytes.ext_iff'.mpr hbytes))
  obtain ⟨hk, ho, hi⟩ := hs.views_eq (run_inv hs events) hsame
  exact { h with
    fresh := hi.trans h.fresh
    owner := ho.trans h.owner
    holds := hholds
    verified := by rw [hk]; exact h.verified }

/-- `inscribe` accepts exactly C1 to C5, and no third party can brick a cell.
A call with enough resources succeeds exactly when it is acceptable; its only
effect is then the new record, and otherwise nothing changes.  While the
recorded owner keeps the unit, no run of calls by other accounts makes an
acceptable call fail. -/
theorem inscribe_accepts_iff (net : Network) (s : Chain) (hs : Reachable net s) (app : App)
    (happ : s.app = some app) (call : AppCall) (c : UInt64) (artifactHash sig uri : Bytes)
    (hresourced : call.resourced = true) (hnoOp : call.onCompletion = .noOp)
    (hargs : call.appArgs = inscribeArgs c artifactHash sig uri) :
    ((exec net (.appCall call) s).isSome = true ↔
      Acceptable net s app.id call.sender c artifactHash sig uri) ∧
    (∀ s', exec net (.appCall call) s = some s' →
      ∃ r : InscriptionRecord, r.version = 1 ∧ r.cellId = c ∧
        r.artifactHash.bytes = artifactHash ∧ r.inscribedRound = s.round ∧
        r.inscriber = call.sender ∧ r.payloadUri.native = uri ∧
        s' = { s with app := some { app with data := { app.data with
          boxes := app.data.boxes.insert (inscriptionsMap.name c) r.encode } } }) ∧
    (exec net (.appCall call) s = none →
      (machine net).step s (.group [.appCall call]) = s) ∧
    ∀ events, (exec net (.appCall call) s).isSome = true →
      (∀ call' s₁ s₂, (machine net).CommittedAt s events (.appCall call') s₁ s₂ →
        call'.sender ≠ call.sender) →
      ((machine net).run s events).Holds call.sender c →
      (exec net (.appCall call) ((machine net).run s events)).isSome = true := by
  have hiff := exec_inscribe_isSome hs.inv happ hresourced hnoOp hargs
  refine ⟨hiff, fun s' h => ?_, fun h => ?_, fun events hok hidle hholds => ?_⟩
  · exact ((exec_inscribe hs.inv happ hresourced hnoOp hargs).mp h).2
  · exact Machine.step_group_of_none (by simp [Machine.execGroup, machine, h])
  · obtain ⟨app', happ', hsame⟩ := run_sameApp hs.inv happ events
    rw [exec_inscribe_isSome (run_inv hs.inv events) happ' hresourced hnoOp hargs, hsame.id]
    exact (hiff.mp hok).run hs.inv hidle hholds

/-- The owner of the sample cell can inscribe it, also after the admin tried to
take it over. -/
theorem sample_acceptance :
    Acceptable sampleNetwork (sampleChain (sampleSetup false ++ sampleRegistration))
      sampleRegistered.id sampleOwner 5 sampleArtifact.bytes [0xBA] [] ∧
    (exec sampleNetwork sampleInscribe
      ((machine sampleNetwork).run (sampleChain (sampleSetup false ++ sampleRegistration))
        sampleTakeover)).isSome = true := by
  have h := inscribe_accepts_iff sampleNetwork
    (sampleChain (sampleSetup false ++ sampleRegistration)) ⟨_, rfl⟩ sampleRegistered
    sampleRegistered_app (noOpCall sampleNetwork sampleOwner
      (inscribeArgs 5 sampleArtifact.bytes [0xBA] [])) 5 sampleArtifact.bytes [0xBA] []
    rfl rfl rfl
  have hok : (exec sampleNetwork sampleInscribe
      (sampleChain (sampleSetup false ++ sampleRegistration))).isSome = true := by
    decide +kernel
  refine ⟨h.1.mp hok, h.2.2.2 sampleTakeover hok ?_ ?_⟩
  · intro call s₁ s₂ hc
    exact sampleTakeover_callers hc
  · show (Asa.Ledger.holding _ _ _).map _ = _
    decide +kernel

end Trelyan.Contract
