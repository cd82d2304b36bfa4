import Trelyan.Contract.Acceptance
import Trelyan.Contract.Provenance
import Trelyan.Sdk.Message

/-!
# The client of the SDK

`TrelyanInscriptionClient.inscribe` of `sdk/src/trelyan_pq/inscription.py`, on
top of the chain.  The client signs the message and submits the call with a
static fee.  If that raises an `Exception`, the call may have landed all the
same, so the client reads the record back: if there is one it returns, and
otherwise it submits once more, with fees covered another way.

A network call is a `Delivery`: whether the call reaches a block, whether its
fees and references suffice, and whether the caller hears of it.  Whether the
program accepts the call is not for the network to choose: it is what the
contract does in the state of the chain.

The client claims more than it keeps, in two places.

* It takes any record for its own.  A cell that somebody inscribed before
  makes the first submission fail and the read-back succeed, and the client
  returns as if it had inscribed what it was asked to (`inscribe_returns_iff`).
* It does not read back after the second submission, nor after a first one that
  ends with a `KeyboardInterrupt`, so a submission that lands and raises can be
  reported as a failure (`inscribe_raises_iff`).
-/

namespace Trelyan.Sdk

open Py Contract

/-! ## The network -/

/-- What happens to one submission. -/
structure Delivery where
  /-- It reaches a block, if the program accepts it. -/
  delivered : Bool
  /-- The fees, budget and references of the strategy suffice. -/
  resourced : Bool
  /-- The caller is told that it landed. -/
  confirmed : Bool
  /-- What the call raises otherwise: an `Exception`, or a `KeyboardInterrupt`
  and its like. -/
  failure : Error

/-- What happens to the read-back. -/
structure ReadBack where
  /-- The node answers. -/
  answers : Bool
  /-- What the call raises otherwise. -/
  failure : Error

/-- What the calls of one `inscribe` meet outside the client. -/
structure Environment where
  /-- `_algokit()`. -/
  algokit : Except Error Unit
  /-- `self.network_genesis_hash()`. -/
  genesisHash : Except Error Bytes
  first : Delivery
  readBack : ReadBack
  second : Delivery

/-- The chain, whose application is the one that the client is bound to, and
the submissions of the client that landed. -/
structure World where
  chain : Chain
  landed : List AppCall

/-- The chain after the submission landed, if it lands. -/
def landing (net : Network) (d : Delivery) (call : AppCall) (s : Chain) : Option Chain :=
  if d.delivered then exec net (.appCall { call with resourced := d.resourced }) s else none

/-- Submit a call.  It lands and returns, lands and raises, or does not land
and raises.  A call that lands does so before `submit` is over: one that raised
does not reach a block later, although `validity_window=1000` would leave it the
time. -/
def submit (net : Network) (d : Delivery) (call : AppCall) (w : World) :
    Except Error Unit × World :=
  match landing net d call w.chain with
  | some chain =>
    (if d.confirmed then .ok () else .error d.failure, ⟨chain, w.landed ++ [call]⟩)
  | none => (.error d.failure, w)

/-- `get_inscription`: a readonly call, which raises if the record is
missing. -/
def getInscription (r : ReadBack) (cell : UInt64) (s : Chain) : Except Error InscriptionRecord :=
  if r.answers then
    match s.app.map fun app => Contract.getInscription cell app.data with
    | some (.ok record) => .ok record
    | _ => .error r.failure
  else .error r.failure

/-! ## The client -/

/-- `TrelyanInscriptionClient`. -/
structure Client where
  appId : UInt64
  /-- `self.deployer.address`. -/
  deployer : Address
  /-- `self.signer.sign(privkey, m)`. -/
  sign : Bytes → Bytes → Except Error Bytes

/-- The cell that an integer in range names. -/
def cellOf (cellId : Int) : UInt64 := UInt64.ofNat cellId.toNat

namespace Client

/-- The call that `inscribe` submits. -/
def inscribeCall (client : Client) (net : Network) (cellId : Int)
    (artifactHash sig payloadUri : Bytes) : AppCall :=
  noOpCall net client.deployer (inscribeArgs (cellOf cellId) artifactHash sig payloadUri)

/-- `inscribe` up to the first submission: the signature. -/
def prepare (client : Client) (env : Environment) (cellId : Int)
    (artifactHash privkey : Bytes) : Except Error Bytes := do
  require (artifactHash.length = 32)
    (Error.valueError "artifact_hash must be 32 bytes (use inscribe_bytes() to hash raw data)")
  env.algokit
  let genesisHash ← env.genesisHash
  let m ← Sdk.buildMessage (.int client.appId.toNat) (.int cellId) (.bytes artifactHash)
    (.bytes genesisHash)
  client.sign privkey m

/-- `inscribe`. -/
def inscribe (client : Client) (net : Network) (env : Environment) (cellId : Int)
    (artifactHash privkey payloadUri : Bytes) (w : World) : Except Error Unit × World :=
  match client.prepare env cellId artifactHash privkey with
  | .error e => (.error e, w)
  | .ok sig =>
    let call := client.inscribeCall net cellId artifactHash sig payloadUri
    match submit net env.first call w with
    | (.ok (), w) => (.ok (), w)
    | (.error first, w) =>
      if first.isException then
        match getInscription env.readBack (cellOf cellId) w.chain with
        -- Any record counts as this call's own.
        | .ok _ => (.ok (), w)
        -- A missing record and a node that does not answer look the same.
        | .error e => if e.isException then submit net env.second call w else (.error e, w)
      else (.error first, w)

/-- `inscribe_bytes`. -/
def inscribeBytes (client : Client) (sha512_256 : Bytes → Bytes) (net : Network)
    (env : Environment) (cellId : Int) (artifact privkey payloadUri : Bytes) (w : World) :
    Except Error Bytes × World :=
  match client.inscribe net env cellId (sha512_256 artifact) privkey payloadUri w with
  | (.ok (), w) => (.ok (sha512_256 artifact), w)
  | (.error e, w) => (.error e, w)

end Client

/-! ## What the parts do -/

/-- The client gets as far as its first submission, with the signature
`sig`. -/
structure Submits (client : Client) (env : Environment) (cellId : Int)
    (artifactHash privkey sig : Bytes) : Prop where
  hash_length : artifactHash.length = 32
  algokit : env.algokit = .ok ()
  cell : InUint64 cellId
  signed : ∃ genesisHash, env.genesisHash = .ok genesisHash ∧ genesisHash.length = 32 ∧
    client.sign privkey (messageOf client.appId.toNat cellId artifactHash genesisHash) = .ok sig

theorem prepare_eq_ok {client : Client} {env : Environment} {cellId : Int}
    {artifactHash privkey sig : Bytes} :
    client.prepare env cellId artifactHash privkey = .ok sig ↔
      Submits client env cellId artifactHash privkey sig := by
  simp only [Client.prepare, bind_eq_ok, require_eq_ok]
  constructor
  · intro h
    rcases h with ⟨-, hlen, ⟨⟩, halgokit, genesisHash, hgenesis, m, hm, hsign⟩
    obtain ⟨app, cell, h, g, happ, -, hcell, hin, -, hh, hg32, hg, rfl⟩ :=
      Sdk.buildMessage_eq_ok.mp hm
    cases happ
    cases hcell
    cases hh
    cases hg
    exact ⟨hlen, halgokit, hin, genesisHash, hgenesis, Except.ok.inj hg32, hsign⟩
  · intro h
    rcases h with ⟨hlen, halgokit, hin, genesisHash, hgenesis, hg32, hsign⟩
    refine ⟨(), hlen, (), halgokit, genesisHash, hgenesis, _, ?_, hsign⟩
    exact Sdk.buildMessage_eq_ok.mpr ⟨_, cellId, artifactHash, genesisHash, rfl,
      inUint64_toNat _, rfl, hin, congrArg Except.ok hlen, rfl, congrArg Except.ok hg32, rfl, rfl⟩

theorem getInscription_eq_ok {r : ReadBack} {cell : UInt64} {s : Chain}
    {record : InscriptionRecord} :
    getInscription r cell s = .ok record ↔
      r.answers = true ∧ s.inscription cell = some record := by
  unfold getInscription
  cases happ : s.app with
  | none => simp [Chain.inscription, happ]
  | some app =>
    rw [Chain.inscription, happ, Option.bind_some, AppData.inscription]
    simp only [Option.map_some, Contract.getInscription, readBox]
    cases r.answers <;> cases inscriptionsMap.get app.data.boxes cell <;> simp

theorem getInscription_eq_error {r : ReadBack} {cell : UInt64} {s : Chain} {e : Error}
    (h : getInscription r cell s = .error e) : e = r.failure := by
  unfold getInscription at h
  split at h
  · split at h
    · cases h
    · exact (Except.error.inj h).symm
  · exact (Except.error.inj h).symm

/-- The record that the chain holds is the one that was asked for. -/
def Recorded (s : Chain) (cellId : Int) (artifactHash payloadUri : Bytes) : Prop :=
  ∃ r, s.inscription (cellOf cellId) = some r ∧ r.artifactHash.bytes = artifactHash ∧
    r.payloadUri.native = payloadUri

section

variable {net : Network} {client : Client} {d : Delivery} {s s' : Chain} {cellId : Int}
  {artifactHash sig payloadUri : Bytes}

/-- A submission that lands finds no record, and leaves the one that was asked
for. -/
theorem landing_recorded (hs : Inv net s)
    (h : landing net d (client.inscribeCall net cellId artifactHash sig payloadUri) s =
      some s') :
    s.inscriptionBox (cellOf cellId) = none ∧ Recorded s' cellId artifactHash payloadUri ∧
      Inv net s' := by
  unfold landing at h
  split at h
  · obtain ⟨hadm, app, happ⟩ := exec_appCall_admissible h
    obtain ⟨hacc, r, -, -, hhash, -, -, huri, heq⟩ :=
      (exec_inscribe hs happ hadm.2 rfl rfl).mp h
    refine ⟨hacc.fresh, ⟨r, ?_, hhash, huri⟩, (exec_effect hs.pristine h).inv hs⟩
    rw [heq, Chain.inscription]
    simp
  · cases h

/-- The contract accepts the call that `inscribe` submits with the signature
`sig`. -/
def Accepts (net : Network) (client : Client) (cellId : Int)
    (artifactHash sig payloadUri : Bytes) (s : Chain) : Prop :=
  ∃ app, s.app = some app ∧
    Acceptable net s app.id client.deployer (cellOf cellId) artifactHash sig payloadUri

/-- A submission lands exactly when it is delivered with its resources and the
contract accepts it. -/
theorem landing_isSome_iff (hs : Inv net s) :
    (landing net d (client.inscribeCall net cellId artifactHash sig payloadUri) s).isSome =
        true ↔
      d.delivered = true ∧ d.resourced = true ∧
        Accepts net client cellId artifactHash sig payloadUri s := by
  unfold landing
  cases d.delivered with
  | false => simp
  | true =>
    rw [if_pos rfl]
    constructor
    · intro h
      obtain ⟨s', hs'⟩ := Option.isSome_iff_exists.mp h
      obtain ⟨hadm, app, happ⟩ := exec_appCall_admissible hs'
      exact ⟨rfl, hadm.2, app, happ, (exec_inscribe_isSome hs happ hadm.2 rfl rfl).mp h⟩
    · intro ⟨_, hresourced, app, happ, hacc⟩
      exact (exec_inscribe_isSome hs happ hresourced rfl rfl).mpr hacc

end

/-! ## A normal return -/

section

variable {net : Network} {client : Client} {env : Environment} {cellId : Int}
  {artifactHash privkey sig payloadUri : Bytes} {w w' : World} {d : Delivery}

theorem submit_cases {call : AppCall} {x : Except Error Unit}
    (h : submit net d call w = (x, w')) :
    (landing net d call w.chain = none ∧ x = .error d.failure ∧ w' = w) ∨
      ∃ s', landing net d call w.chain = some s' ∧
        x = (if d.confirmed then .ok () else .error d.failure) ∧
        w' = ⟨s', w.landed ++ [call]⟩ := by
  unfold submit at h
  split at h
  · rename_i s' hland
    obtain ⟨rfl, rfl⟩ := Prod.mk.inj h
    exact Or.inr ⟨s', hland, rfl, rfl⟩
  · rename_i hland
    obtain ⟨rfl, rfl⟩ := Prod.mk.inj h
    exact Or.inl ⟨hland, rfl, rfl⟩

theorem submit_error {call : AppCall} {e : Error} (h : submit net d call w = (.error e, w')) :
    e = d.failure := by
  rcases submit_cases h with ⟨-, hx, -⟩ | ⟨s', -, hx, -⟩
  · exact Except.error.inj hx
  · split at hx
    · cases hx
    · exact Except.error.inj hx

/-- What a submission that returns has done. -/
theorem submit_ok_recorded (hs : Inv net w.chain)
    (h : submit net d (client.inscribeCall net cellId artifactHash sig payloadUri) w =
      (.ok (), w')) :
    Recorded w'.chain cellId artifactHash payloadUri := by
  rcases submit_cases h with ⟨-, hx, -⟩ | ⟨s', hland, -, rfl⟩
  · cases hx
  · exact (landing_recorded hs hland).2.1

/-- After a submission that raises, either it did not land and the world is as
before, or it landed and left the record that was asked for. -/
theorem submit_error_cases {e : Error} (hs : Inv net w.chain)
    (h : submit net d (client.inscribeCall net cellId artifactHash sig payloadUri) w =
      (.error e, w')) :
    w' = w ∨ Recorded w'.chain cellId artifactHash payloadUri ∧ Inv net w'.chain := by
  rcases submit_cases h with ⟨-, -, rfl⟩ | ⟨s', hland, -, rfl⟩
  · exact Or.inl rfl
  · exact Or.inr (landing_recorded hs hland).2

/-- A normal return leaves the record that was asked for, or the client took
a record that was there before for its own. -/
theorem inscribe_ok_cases (hs : Inv net w.chain)
    (h : client.inscribe net env cellId artifactHash privkey payloadUri w = (.ok (), w')) :
    Recorded w'.chain cellId artifactHash payloadUri ∨
      (∃ sig, Submits client env cellId artifactHash privkey sig) ∧
        env.first.failure.isException = true ∧ env.readBack.answers = true ∧ w' = w ∧
        ∃ r, w.chain.inscription (cellOf cellId) = some r := by
  unfold Client.inscribe at h
  split at h
  · cases h
  · rename_i sig hsig
    dsimp only at h
    split at h
    · rename_i w₁ hfirst
      cases h
      exact Or.inl (submit_ok_recorded hs hfirst)
    · rename_i e w₁ hfirst
      split at h
      case isFalse => cases h
      case isTrue hexception =>
        rw [submit_error hfirst] at hexception
        split at h
        · rename_i record hread
          cases h
          rcases submit_error_cases hs hfirst with rfl | ⟨hrecorded, -⟩
          · obtain ⟨hanswers, hrecord⟩ := getInscription_eq_ok.mp hread
            exact Or.inr
              ⟨⟨sig, prepare_eq_ok.mp hsig⟩, hexception, hanswers, rfl, record, hrecord⟩
          · exact Or.inl hrecorded
        · split at h
          · rcases submit_error_cases hs hfirst with rfl | ⟨-, hs₁⟩
            · exact Or.inl (submit_ok_recorded hs h)
            · exact Or.inl (submit_ok_recorded hs₁ h)
          · cases h

/-- On a cell that has a record, a client that gets as far as submitting takes
that record for its own. -/
theorem inscribe_of_record {r : InscriptionRecord} (hs : Inv net w.chain)
    (hsubmits : Submits client env cellId artifactHash privkey sig)
    (hexception : env.first.failure.isException = true) (hanswers : env.readBack.answers = true)
    (hr : w.chain.inscription (cellOf cellId) = some r) :
    client.inscribe net env cellId artifactHash privkey payloadUri w = (.ok (), w) := by
  have hland : landing net env.first
      (client.inscribeCall net cellId artifactHash sig payloadUri) w.chain = none := by
    rw [Option.eq_none_iff_forall_ne_some]
    intro s' hs'
    exact Chain.inscriptionBox_of_inscription hr (landing_recorded hs hs').1
  have hread : getInscription env.readBack (cellOf cellId) w.chain = .ok r :=
    getInscription_eq_ok.mpr ⟨hanswers, hr⟩
  simp only [Client.inscribe, prepare_eq_ok.mpr hsubmits, submit, hland, hread, hexception,
    if_true]

end

/-- The client takes a record for its own that is not the one it was asked to
write: it gets as far as submitting, a failure of that would be an `Exception`,
the node answers the read-back, and the cell had another record before. -/
def TakesForeignRecord (client : Client) (env : Environment) (cellId : Int)
    (artifactHash privkey payloadUri : Bytes) (s : Chain) : Prop :=
  (∃ sig, Submits client env cellId artifactHash privkey sig) ∧
    env.first.failure.isException = true ∧ env.readBack.answers = true ∧
    ∃ r, s.inscription (cellOf cellId) = some r ∧
      ¬ (r.artifactHash.bytes = artifactHash ∧ r.payloadUri.native = payloadUri)

theorem recorded_of_ok_iff {net : Network} {client : Client} {env : Environment} {cellId : Int}
    {artifactHash privkey payloadUri : Bytes} {w : World} (hs : Inv net w.chain) :
    (∀ w', client.inscribe net env cellId artifactHash privkey payloadUri w = (.ok (), w') →
      Recorded w'.chain cellId artifactHash payloadUri) ↔
      ¬ TakesForeignRecord client env cellId artifactHash privkey payloadUri w.chain := by
  constructor
  · rintro h ⟨⟨sig, hsubmits⟩, hexception, hanswers, r, hr, hother⟩
    obtain ⟨r', hr', hhash, huri⟩ := h w (inscribe_of_record hs hsubmits hexception hanswers hr)
    rw [hr] at hr'
    cases hr'
    exact hother ⟨hhash, huri⟩
  · intro h w' hok
    rcases inscribe_ok_cases hs hok with hrecorded | ⟨hsubmits, hexception, hanswers, rfl, r, hr⟩
    · exact hrecorded
    · have hsame : r.artifactHash.bytes = artifactHash ∧ r.payloadUri.native = payloadUri := by
        by_contra hother
        exact h ⟨hsubmits, hexception, hanswers, r, hr, hother⟩
      exact ⟨r, hr, hsame⟩

/-- When a normal return of the client means that the requested inscription is
on chain: always, except when the client takes a foreign record for its own.
The same holds of `inscribe_bytes`, with the hash of the artifact. -/
theorem inscribe_returns_iff (net : Network) (client : Client) (env : Environment)
    (cellId : Int) (privkey payloadUri : Bytes) (w : World) (hs : Reachable net w.chain) :
    (∀ artifactHash,
      (∀ w', client.inscribe net env cellId artifactHash privkey payloadUri w = (.ok (), w') →
        Recorded w'.chain cellId artifactHash payloadUri) ↔
      ¬ TakesForeignRecord client env cellId artifactHash privkey payloadUri w.chain) ∧
    ∀ (sha512_256 : Bytes → Bytes) (artifact : Bytes),
      (∀ h w', client.inscribeBytes sha512_256 net env cellId artifact privkey payloadUri w =
          (.ok h, w') →
        Recorded w'.chain cellId (sha512_256 artifact) payloadUri) ↔
      ¬ TakesForeignRecord client env cellId (sha512_256 artifact) privkey payloadUri w.chain := by
  refine ⟨fun artifactHash => recorded_of_ok_iff hs.inv, fun sha512_256 artifact => ?_⟩
  rw [← recorded_of_ok_iff hs.inv]
  constructor
  · intro h w' hok
    exact h (sha512_256 artifact) w' (by rw [Client.inscribeBytes, hok])
  · intro h hash w' hok
    unfold Client.inscribeBytes at hok
    split at hok
    · rename_i w₁ heq
      cases hok
      exact h _ heq
    · cases hok

/-- A client of the sample owner, with a signer whose signature the sample
network accepts. -/
def sampleClient : Client := ⟨9, sampleOwner, fun _ _ => .ok [0xBA]⟩

/-- A submission that is delivered or not, and confirmed or not. -/
def sampleDelivery (delivered confirmed : Bool) : Delivery :=
  ⟨delivered, true, confirmed, .exception "TimeoutError" "no confirmation"⟩

/-- A node that answers everything but, perhaps, the submissions. -/
def sampleEnvironment (first second : Delivery) : Environment where
  algokit := .ok ()
  genesisHash := .ok sampleNetwork.genesisHash.bytes
  first
  readBack := ⟨true, .exception "LogicError" "box not found"⟩
  second

/-- The chain after a list of events, and no submission yet. -/
def sampleWorld (events : List (Atomic.Event Transaction UInt64)) : World :=
  ⟨sampleChain events, []⟩

theorem sampleWorld_reachable (events : List (Atomic.Event Transaction UInt64)) :
    Reachable sampleNetwork (sampleWorld events).chain :=
  ⟨events, rfl⟩

/-- The sample world with its cell registered. -/
def registeredWorld : World := sampleWorld (sampleSetup false ++ sampleRegistration)

theorem registeredWorld_fresh : registeredWorld.chain.inscriptionBox (cellOf 5) = none := by
  decide +kernel

private theorem exists_snd {α β : Type} {x : α × β} {a : α} (h : x.1 = a) :
    ∃ b, x = (a, b) ∧ x.2 = b :=
  ⟨x.2, by rw [← h], rfl⟩

theorem sample_inscribe_returns :
    ∃ w', sampleClient.inscribe sampleNetwork
        (sampleEnvironment (sampleDelivery true false) (sampleDelivery false false)) 5
        sampleArtifact.bytes [] [] registeredWorld = (.ok (), w') ∧
      Recorded w'.chain 5 sampleArtifact.bytes [] := by
  have hok : (sampleClient.inscribe sampleNetwork
      (sampleEnvironment (sampleDelivery true false) (sampleDelivery false false)) 5
      sampleArtifact.bytes [] [] registeredWorld).1 = .ok () := by
    decide +kernel
  obtain ⟨w', hw', -⟩ := exists_snd hok
  refine ⟨w', hw', ?_⟩
  refine ((inscribe_returns_iff sampleNetwork sampleClient _ 5 [] [] registeredWorld
    (sampleWorld_reachable _)).1 sampleArtifact.bytes).mpr ?_ w' hw'
  intro h
  rcases h with ⟨-, -, -, r, hr, -⟩
  exact Chain.inscriptionBox_of_inscription hr registeredWorld_fresh

/-- On the sample cell, once it is inscribed, a request for another artifact
returns normally. -/
theorem inscribe_returns_on_foreign_record :
    ¬ ∀ (client : Client) (env : Environment) (cellId : Int)
      (artifactHash privkey payloadUri : Bytes) (w w' : World),
      Reachable sampleNetwork w.chain →
      client.inscribe sampleNetwork env cellId artifactHash privkey payloadUri w =
        (.ok (), w') →
      Recorded w'.chain cellId artifactHash payloadUri := by
  intro h
  have hreachable := sampleWorld_reachable sampleInscribed
  have hsubmits : Submits sampleClient
      (sampleEnvironment (sampleDelivery true true) (sampleDelivery true true)) 5
      (List.replicate 32 0xBB) [] [0xBA] :=
    ⟨by decide, rfl, ⟨by decide, by decide⟩, _, rfl, by decide, rfl⟩
  have hrecord : (sampleWorld sampleInscribed).chain.inscription (cellOf 5) =
      some ⟨1, 5, sampleArtifact, 41, sampleOwner, ⟨[], by decide⟩⟩ := by
    decide +kernel
  obtain ⟨r, hr, hhash, -⟩ := h _ _ _ _ _ [] _ _ hreachable
    (inscribe_of_record hreachable.inv hsubmits (by decide) rfl hrecord)
  rw [hrecord] at hr
  cases hr
  exact absurd hhash (by decide)

/-! ## An exception -/

/-- The first submission lands, and the client does not come to read it back:
what it hears instead of the confirmation is not an `Exception`. -/
structure FirstUnheard (env : Environment) : Prop where
  delivered : env.first.delivered = true
  resourced : env.first.resourced = true
  unconfirmed : env.first.confirmed = false
  escapes : env.first.failure.isException = false

/-- The client comes to its second submission, the first one being lost or short
of resources, and that lands without a confirmation. -/
structure SecondUnheard (env : Environment) : Prop where
  first : ¬ (env.first.delivered = true ∧ env.first.resourced = true)
  caught : env.first.failure.isException = true
  caughtAgain : env.readBack.failure.isException = true
  delivered : env.second.delivered = true
  resourced : env.second.resourced = true
  unconfirmed : env.second.confirmed = false

/-- A submission lands without the client hearing of it: the contract accepts the
call, and it is the first or the second one. -/
def LandsUnheard (net : Network) (client : Client) (env : Environment) (cellId : Int)
    (artifactHash privkey payloadUri : Bytes) (s : Chain) : Prop :=
  (∃ sig, Submits client env cellId artifactHash privkey sig ∧
    Accepts net client cellId artifactHash sig payloadUri s) ∧
    (FirstUnheard env ∨ SecondUnheard env)

section

variable {net : Network} {client : Client} {env : Environment} {cellId : Int}
  {artifactHash privkey sig payloadUri : Bytes} {w w' : World} {e : Error} {d : Delivery}

/-- An exception comes from before the first submission, from the first one if it
is not an `Exception`, from the read-back likewise, or from the second submission
after the read-back found nothing. -/
theorem inscribe_error_cases
    (h : client.inscribe net env cellId artifactHash privkey payloadUri w = (.error e, w')) :
    w' = w ∨ ∃ sig e₁ w₁, Submits client env cellId artifactHash privkey sig ∧
      submit net env.first (client.inscribeCall net cellId artifactHash sig payloadUri) w =
        (.error e₁, w₁) ∧
      ((e₁.isException = false ∧ w' = w₁) ∨
        ∃ e₂, e₁.isException = true ∧
          getInscription env.readBack (cellOf cellId) w₁.chain = .error e₂ ∧
          (w' = w₁ ∨ e₂.isException = true ∧
            submit net env.second (client.inscribeCall net cellId artifactHash sig payloadUri)
              w₁ = (.error e, w'))) := by
  unfold Client.inscribe at h
  split at h
  · cases h
    exact Or.inl rfl
  · rename_i sig hsig
    dsimp only at h
    split at h
    · cases h
    · rename_i e₁ w₁ hfirst
      refine Or.inr ⟨sig, e₁, w₁, prepare_eq_ok.mp hsig, hfirst, ?_⟩
      split at h
      case isFalse hescapes =>
        cases h
        exact Or.inl ⟨Bool.eq_false_iff.mpr hescapes, rfl⟩
      case isTrue hcaught =>
        split at h
        · cases h
        · rename_i e₂ hread
          refine Or.inr ⟨e₂, hcaught, hread, ?_⟩
          split at h
          case isTrue hcaught' => exact Or.inr ⟨hcaught', h⟩
          case isFalse =>
            cases h
            exact Or.inl rfl

/-- A read-back that fails only if there is no record finds the record of a
first submission that landed. -/
theorem landing_eq_none_of_readBack (hs : Inv net w.chain) {e₁ e₂ : Error} {w₁ : World}
    (hfirst : submit net env.first
      (client.inscribeCall net cellId artifactHash sig payloadUri) w = (.error e₁, w₁))
    (hread : getInscription env.readBack (cellOf cellId) w₁.chain = .error e₂)
    (htruthful : env.readBack.answers = false → w₁.chain.inscription (cellOf cellId) = none) :
    landing net env.first (client.inscribeCall net cellId artifactHash sig payloadUri) w.chain =
      none ∧ w₁ = w := by
  rcases submit_cases hfirst with ⟨hnone, -, heq⟩ | ⟨s₁, hsome, -, rfl⟩
  · exact ⟨hnone, heq⟩
  · exfalso
    obtain ⟨-, ⟨r, hr, -⟩, -⟩ := landing_recorded hs hsome
    cases hanswers : env.readBack.answers with
    | false =>
      have hnone := htruthful hanswers
      rw [hr] at hnone
      cases hnone
    | true =>
      rw [getInscription_eq_ok.mpr ⟨hanswers, hr⟩] at hread
      cases hread

/-- A submission that raises did not land, or it landed unheard. -/
theorem submit_raises_cases (hs : Inv net w.chain)
    (h : submit net d (client.inscribeCall net cellId artifactHash sig payloadUri) w =
      (.error e, w')) :
    w' = w ∨ d.delivered = true ∧ d.resourced = true ∧ d.confirmed = false ∧
      Accepts net client cellId artifactHash sig payloadUri w.chain := by
  rcases submit_cases h with ⟨-, -, heq⟩ | ⟨s', hsome, hx, -⟩
  · exact Or.inl heq
  have hconfirmed : d.confirmed = false := by
    cases hc : d.confirmed with
    | false => rfl
    | true => rw [hc] at hx; cases hx
  obtain ⟨hdelivered, hresourced, hacc⟩ :=
    (landing_isSome_iff hs).mp (Option.isSome_iff_exists.mpr ⟨_, hsome⟩)
  exact Or.inr ⟨hdelivered, hresourced, hconfirmed, hacc⟩

/-- The client raises although its first submission landed. -/
theorem inscribe_raises_of_first (hs : Inv net w.chain)
    (hsubmits : Submits client env cellId artifactHash privkey sig)
    (hacc : Accepts net client cellId artifactHash sig payloadUri w.chain)
    (h : FirstUnheard env) :
    ∃ e w', client.inscribe net env cellId artifactHash privkey payloadUri w = (.error e, w') ∧
      w'.landed.length = w.landed.length + 1 := by
  obtain ⟨s', hsome⟩ := Option.isSome_iff_exists.mp
    ((landing_isSome_iff hs).mpr ⟨h.delivered, h.resourced, hacc⟩)
  refine ⟨env.first.failure,
    ⟨s', w.landed ++ [client.inscribeCall net cellId artifactHash sig payloadUri]⟩, ?_, ?_⟩
  · simp [Client.inscribe, prepare_eq_ok.mpr hsubmits, submit, hsome, h.unconfirmed, h.escapes]
  · simp

/-- The client raises although its second submission landed. -/
theorem inscribe_raises_of_second (hs : Inv net w.chain)
    (hfresh : w.chain.inscriptionBox (cellOf cellId) = none)
    (hsubmits : Submits client env cellId artifactHash privkey sig)
    (hacc : Accepts net client cellId artifactHash sig payloadUri w.chain)
    (h : SecondUnheard env) :
    ∃ e w', client.inscribe net env cellId artifactHash privkey payloadUri w = (.error e, w') ∧
      w'.landed.length = w.landed.length + 1 := by
  have hnone : landing net env.first
      (client.inscribeCall net cellId artifactHash sig payloadUri) w.chain = none := by
    rw [← Option.isNone_iff_eq_none, ← Option.isSome_eq_false_iff, Bool.eq_false_iff,
      Ne, landing_isSome_iff hs]
    intro hland
    exact h.first ⟨hland.1, hland.2.1⟩
  obtain ⟨s', hsome⟩ := Option.isSome_iff_exists.mp
    ((landing_isSome_iff hs).mpr ⟨h.delivered, h.resourced, hacc⟩)
  have hread : getInscription env.readBack (cellOf cellId) w.chain =
      .error env.readBack.failure := by
    cases hread : getInscription env.readBack (cellOf cellId) w.chain with
    | error e => rw [getInscription_eq_error hread]
    | ok r =>
      exact absurd hfresh (Chain.inscriptionBox_of_inscription (getInscription_eq_ok.mp hread).2)
  refine ⟨env.second.failure,
    ⟨s', w.landed ++ [client.inscribeCall net cellId artifactHash sig payloadUri]⟩, ?_, ?_⟩
  · simp [Client.inscribe, prepare_eq_ok.mpr hsubmits, submit, hnone, hread, hsome,
      h.unconfirmed, h.caught, h.caughtAgain]
  · simp

end

/-- When an exception of the client means that neither submission landed, on a
cell without a record and with a read-back that fails only if there is no
record: always, except when a submission lands unheard. -/
theorem inscribe_raises_iff (net : Network) (client : Client) (env : Environment)
    (cellId : Int) (artifactHash privkey payloadUri : Bytes) (w : World)
    (hs : Reachable net w.chain)
    (hfresh : w.chain.inscriptionBox (cellOf cellId) = none)
    (htruthful : ∀ sig e w₁, Submits client env cellId artifactHash privkey sig →
      submit net env.first (client.inscribeCall net cellId artifactHash sig payloadUri) w =
        (.error e, w₁) →
      env.readBack.answers = false → w₁.chain.inscription (cellOf cellId) = none) :
    (∀ e w', client.inscribe net env cellId artifactHash privkey payloadUri w =
        (.error e, w') →
      w'.landed = w.landed) ↔
      ¬ LandsUnheard net client env cellId artifactHash privkey payloadUri w.chain := by
  constructor
  · rintro h ⟨⟨sig, hsubmits, hacc⟩, hunheard⟩
    obtain ⟨e, w', herror, hlen⟩ : ∃ e w',
        client.inscribe net env cellId artifactHash privkey payloadUri w = (.error e, w') ∧
          w'.landed.length = w.landed.length + 1 := by
      rcases hunheard with hfirst | hsecond
      · exact inscribe_raises_of_first hs.inv hsubmits hacc hfirst
      · exact inscribe_raises_of_second hs.inv hfresh hsubmits hacc hsecond
    rw [h e w' herror] at hlen
    omega
  · intro h e w' herror
    rcases inscribe_error_cases herror with rfl | ⟨sig, e₁, w₁, hsubmits, hfirst, hrest⟩
    · rfl
    rcases hrest with ⟨hescapes, rfl⟩ | ⟨e₂, hcaught, hread, hrest⟩
    · rw [submit_error hfirst] at hescapes
      rcases submit_raises_cases hs.inv hfirst with
        rfl | ⟨hdelivered, hresourced, hconfirmed, hacc⟩
      · rfl
      · exact absurd ⟨⟨sig, hsubmits, hacc⟩,
          Or.inl ⟨hdelivered, hresourced, hconfirmed, hescapes⟩⟩ h
    · obtain ⟨hnone, rfl⟩ := landing_eq_none_of_readBack hs.inv hfirst hread
        (htruthful sig e₁ w₁ hsubmits hfirst)
      rcases hrest with rfl | ⟨hcaught', hsecond⟩
      · rfl
      rw [submit_error hfirst] at hcaught
      rw [getInscription_eq_error hread] at hcaught'
      rcases submit_raises_cases hs.inv hsecond with
        rfl | ⟨hdelivered, hresourced, hconfirmed, hacc⟩
      · rfl
      · refine absurd ⟨⟨sig, hsubmits, hacc⟩, Or.inr ⟨fun hlands => ?_, hcaught, hcaught',
          hdelivered, hresourced, hconfirmed⟩⟩ h
        have hsome := (landing_isSome_iff hs.inv).mpr ⟨hlands.1, hlands.2, hacc⟩
        rw [hnone] at hsome
        cases hsome

theorem sample_inscribe_raises :
    ∃ e w', sampleClient.inscribe sampleNetwork
        (sampleEnvironment (sampleDelivery false false) (sampleDelivery false false)) 5
        sampleArtifact.bytes [] [] registeredWorld = (.error e, w') ∧ w'.landed = [] := by
  have herror : (sampleClient.inscribe sampleNetwork
      (sampleEnvironment (sampleDelivery false false) (sampleDelivery false false)) 5
      sampleArtifact.bytes [] [] registeredWorld).1 =
      .error (.exception "TimeoutError" "no confirmation") := by
    decide +kernel
  obtain ⟨w', hw', -⟩ := exists_snd herror
  refine ⟨_, w', hw', ?_⟩
  refine (inscribe_raises_iff sampleNetwork sampleClient _ 5 sampleArtifact.bytes [] []
    registeredWorld (sampleWorld_reachable _) registeredWorld_fresh ?_).mpr ?_ _ w' hw'
  · intro sig e w₁ _ _ hanswers
    cases hanswers
  · rintro ⟨-, hfirst | hsecond⟩
    · cases hfirst.delivered
    · cases hsecond.delivered

/-- On the sample cell the first submission is lost and the second one lands
without a confirmation: the client raises, and its inscription is on chain. -/
theorem inscribe_raises_after_landing :
    ¬ ∀ (client : Client) (env : Environment) (cellId : Int)
      (artifactHash privkey payloadUri : Bytes) (w : World) (e : Error) (w' : World),
      Reachable sampleNetwork w.chain →
      w.chain.inscriptionBox (cellOf cellId) = none →
      env.readBack.answers = true →
      client.inscribe sampleNetwork env cellId artifactHash privkey payloadUri w =
        (.error e, w') →
      w'.landed = w.landed := by
  intro h
  have herror : (sampleClient.inscribe sampleNetwork
      (sampleEnvironment (sampleDelivery false false) (sampleDelivery true false)) 5
      sampleArtifact.bytes [] [] registeredWorld).1 =
      .error (.exception "TimeoutError" "no confirmation") := by
    decide +kernel
  have hlanded : (sampleClient.inscribe sampleNetwork
      (sampleEnvironment (sampleDelivery false false) (sampleDelivery true false)) 5
      sampleArtifact.bytes [] [] registeredWorld).2.landed.length = 1 := by
    decide +kernel
  obtain ⟨w', hw', hsnd⟩ := exists_snd herror
  rw [hsnd, h _ _ _ _ _ _ registeredWorld _ w' (sampleWorld_reachable _) registeredWorld_fresh
    rfl hw'] at hlanded
  cases hlanded

end Trelyan.Sdk
