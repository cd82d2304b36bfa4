import Trelyan.Lib.Python
import Trelyan.Contract.Methods

/-!
# The signed message

The message that an inscription signs is built in three places: on chain by
the contract (`Trelyan.Contract.buildMessage`), in the SDK
(`sdk/src/trelyan_pq/message.py`), and by the signer beside the contract
(`contracts/falcon_det1024.py`).  The two Python copies take whatever the
caller passes and check it themselves.

On well-typed arguments all three build the same 102 bytes, and the message
determines what it was built from (`messages_agree`).  On other arguments the
two Python copies do not always agree.  The copy of the SDK checks the cell id
in `cell_key`, which lets a `bool` pass, and it converts the hashes by
`bytes(..)`, which accepts a list or a tuple of byte values where the other
copy raises.  `copies_agree_iff` says that these are the only differences.
-/

namespace Trelyan

open Py

/-! ## The two copies -/

/-- `if isinstance(v, bool) or not isinstance(v, int) or not 0 <= v <= 2**64-1:
raise ValueError(..)`. -/
def requireUint64 (name : String) : Value → Except Error Int
  | .int n => do
    require (0 ≤ n ∧ n ≤ 0xFFFFFFFFFFFFFFFF)
      (.valueError (name ++ " must be a uint64 (0 .. 2**64-1)"))
    .ok n
  | _ => .error (.valueError (name ++ " must be a uint64 (0 .. 2**64-1)"))

namespace Sdk

/-- `b"TRELYAN-INSCRIPTION-v1"`. -/
def domainTag : Bytes :=
  [0x54, 0x52, 0x45, 0x4c, 0x59, 0x41, 0x4e, 0x2d, 0x49, 0x4e, 0x53, 0x43, 0x52, 0x49, 0x50,
    0x54, 0x49, 0x4f, 0x4e, 0x2d, 0x76, 0x31]

def messageLen : Nat := domainTag.length + 8 + 8 + 32 + 32

/-- `cell_key`. -/
def cellKey (cellId : Value) : Except Error Bytes :=
  match cellId.asInt? with
  | some n => do
    require (¬ n < 0 ∧ ¬ n > 0xFFFFFFFFFFFFFFFF)
      (.valueError "cell_id must be a uint64 (0 .. 2**64-1)")
    toBytes n 8
  | none => .error (.valueError "cell_id must be a uint64 (0 .. 2**64-1)")

/-- `trelyan_pq.message.build_message`. -/
def buildMessage (appId cellId artifactHash genesisHash : Value) : Except Error Bytes := do
  let app ← requireUint64 "app_id" appId
  let n ← len artifactHash
  require (n = 32) (Error.valueError "artifact_hash must be 32 bytes (a sha512_256 digest)")
  let n ← len genesisHash
  require (n = 32) (Error.valueError "genesis_hash must be 32 bytes (the network genesis hash)")
  let a ← toBytes app 8
  let c ← cellKey cellId
  let h ← bytesOf artifactHash
  let g ← bytesOf genesisHash
  let msg := domainTag ++ a ++ c ++ h ++ g
  require (msg.length = messageLen) (Error.assertionError "internal: message length drift")
  .ok msg

end Sdk

namespace FalconDet1024

/-- `b"TRELYAN-INSCRIPTION-v1"`. -/
def domainTag : Bytes :=
  [0x54, 0x52, 0x45, 0x4c, 0x59, 0x41, 0x4e, 0x2d, 0x49, 0x4e, 0x53, 0x43, 0x52, 0x49, 0x50,
    0x54, 0x49, 0x4f, 0x4e, 0x2d, 0x76, 0x31]

/-- `falcon_det1024.build_message`. -/
def buildMessage (appId cellId artifactHash genesisHash : Value) : Except Error Bytes := do
  let app ← requireUint64 "app_id" appId
  let cell ← requireUint64 "cell_id" cellId
  let n ← len artifactHash
  require (n = 32) (Error.valueError "artifact_hash must be 32 bytes (sha512_256)")
  let n ← len genesisHash
  require (n = 32) (Error.valueError "genesis_hash must be 32 bytes")
  let a ← toBytes app 8
  let c ← toBytes cell 8
  let msg ← concat (domainTag ++ a ++ c) artifactHash
  concat msg genesisHash

end FalconDet1024

/-! ## When each copy returns -/

/-- The message of two ids in range and two hashes. -/
def messageOf (app cell : Int) (artifactHash genesisHash : Bytes) : Bytes :=
  Contract.domainTag ++ BigEndian.encode 8 app.toNat ++ BigEndian.encode 8 cell.toNat ++
    artifactHash ++ genesisHash

/-- `0 <= n <= 2**64-1`. -/
def InUint64 (n : Int) : Prop := 0 ≤ n ∧ n ≤ 0xFFFFFFFFFFFFFFFF

theorem requireUint64_eq_ok {name : String} {v : Value} {n : Int} :
    requireUint64 name v = .ok n ↔ v = .int n ∧ InUint64 n := by
  cases v with
  | int m =>
    rw [requireUint64, require_bind_eq_ok, Except.ok.injEq]
    constructor
    · intro h
      rcases h with ⟨h, rfl⟩
      exact ⟨rfl, h⟩
    · intro h
      rcases h with ⟨heq, h⟩
      cases heq
      exact ⟨h, rfl⟩
  | _ => simp [requireUint64]

theorem toBytes_of_inUint64 {n : Int} (h : InUint64 n) {b : Bytes} :
    toBytes n 8 = .ok b ↔ b = BigEndian.encode 8 n.toNat := by
  have hlt : n < 256 ^ 8 := by
    have := h.2
    omega
  rw [toBytes_eq_ok]
  constructor
  · intro hb
    exact hb.2.2
  · intro hb
    exact ⟨h.1, hlt, hb⟩

theorem cellKey_eq_ok {v : Value} {b : Bytes} :
    Sdk.cellKey v = .ok b ↔
      ∃ n, v.asInt? = some n ∧ InUint64 n ∧ b = BigEndian.encode 8 n.toNat := by
  unfold Sdk.cellKey
  cases hv : v.asInt? with
  | none => simp
  | some n =>
    simp only [require_bind_eq_ok, Option.some.injEq]
    constructor
    · intro h
      rcases h with ⟨hrange, hb⟩
      have h : InUint64 n := ⟨Int.not_lt.mp hrange.1, Int.not_lt.mp hrange.2⟩
      exact ⟨n, rfl, h, (toBytes_of_inUint64 h).mp hb⟩
    · intro h
      rcases h with ⟨m, rfl, h, hb⟩
      exact ⟨⟨Int.not_lt.mpr h.1, Int.not_lt.mpr h.2⟩, (toBytes_of_inUint64 h).mpr hb⟩

/-- The length assertion of the SDK copy always holds. -/
theorem messageOf_length {app cell : Int} {artifactHash genesisHash : Bytes}
    (hh : artifactHash.length = 32) (hg : genesisHash.length = 32) :
    (messageOf app cell artifactHash genesisHash).length = Sdk.messageLen := by
  simp only [messageOf, List.length_append, BigEndian.encode_length, hh, hg]
  rfl

theorem Sdk.buildMessage_eq_ok {appId cellId artifactHash genesisHash : Value} {msg : Bytes} :
    Sdk.buildMessage appId cellId artifactHash genesisHash = .ok msg ↔
      ∃ app cell h g, appId = .int app ∧ InUint64 app ∧
        cellId.asInt? = some cell ∧ InUint64 cell ∧
        len artifactHash = .ok 32 ∧ bytesOf artifactHash = .ok h ∧
        len genesisHash = .ok 32 ∧ bytesOf genesisHash = .ok g ∧
        msg = messageOf app cell h g := by
  simp only [Sdk.buildMessage, bind_eq_ok, require_eq_ok, requireUint64_eq_ok,
    cellKey_eq_ok, Except.ok.injEq]
  constructor
  · intro h
    rcases h with ⟨app, ⟨happ, hin⟩, n, hn, -, rfl, m, hm, -, rfl, a, ha, c, ⟨cell, hcell, hcin,
      rfl⟩, h, hh, g, hg, -, -, rfl⟩
    rw [toBytes_of_inUint64 hin] at ha
    subst ha
    exact ⟨app, cell, h, g, happ, hin, hcell, hcin, hn, hh, hm, hg, rfl⟩
  · intro h
    rcases h with ⟨app, cell, h, g, happ, hin, hcell, hcin, hn, hh, hm, hg, rfl⟩
    exact ⟨app, ⟨happ, hin⟩, 32, hn, (), rfl, 32, hm, (), rfl, _, (toBytes_of_inUint64 hin).mpr rfl,
      _, ⟨cell, hcell, hcin, rfl⟩, h, hh, g, hg, (),
      messageOf_length (bytesOf_length hn hh) (bytesOf_length hm hg), rfl⟩

/-- What the SDK copy raises. -/
theorem Sdk.buildMessage_errors (appId cellId artifactHash genesisHash : Value) :
    Errors Error.IsBuiltin (Sdk.buildMessage appId cellId artifactHash genesisHash) := by
  have hvalue : ∀ msg, (Error.valueError msg).IsBuiltin := Error.isBuiltin_valueError
  have happ : Errors Error.IsBuiltin (requireUint64 "app_id" appId) := by
    unfold requireUint64
    split
    · exact (errors_require (hvalue _)).bind fun _ => errors_ok _
    · exact errors_error (hvalue _)
  have hcell : Errors Error.IsBuiltin (Sdk.cellKey cellId) := by
    unfold Sdk.cellKey
    split
    · exact (errors_require (hvalue _)).bind fun _ => toBytes_errors _ _
    · exact errors_error (hvalue _)
  exact happ.bind fun _ => (len_errors _).bind fun _ => (errors_require (hvalue _)).bind fun _ =>
    (len_errors _).bind fun _ => (errors_require (hvalue _)).bind fun _ =>
    (toBytes_errors _ _).bind fun _ => hcell.bind fun _ => (bytesOf_errors _).bind fun _ =>
    (bytesOf_errors _).bind fun _ =>
    (errors_require (Error.isBuiltin_assertionError _)).bind fun _ => errors_ok _

theorem FalconDet1024.buildMessage_eq_ok {appId cellId artifactHash genesisHash : Value}
    {msg : Bytes} :
    FalconDet1024.buildMessage appId cellId artifactHash genesisHash = .ok msg ↔
      ∃ app cell h g, appId = .int app ∧ InUint64 app ∧ cellId = .int cell ∧ InUint64 cell ∧
        len artifactHash = .ok 32 ∧ artifactHash.buffer? = some h ∧
        len genesisHash = .ok 32 ∧ genesisHash.buffer? = some g ∧
        msg = messageOf app cell h g := by
  simp only [FalconDet1024.buildMessage, bind_eq_ok, require_eq_ok, requireUint64_eq_ok,
    concat_eq_ok]
  constructor
  · intro h
    rcases h with ⟨app, ⟨happ, hin⟩, cell, ⟨hcell, hcin⟩, n, hn, -, rfl, m, hm, -, rfl, a, ha, c,
      hc, msg', ⟨h, hh, rfl⟩, g, hg, rfl⟩
    rw [toBytes_of_inUint64 hin] at ha
    rw [toBytes_of_inUint64 hcin] at hc
    subst ha hc
    exact ⟨app, cell, h, g, happ, hin, hcell, hcin, hn, hh, hm, hg, rfl⟩
  · intro h
    rcases h with ⟨app, cell, h, g, happ, hin, hcell, hcin, hn, hh, hm, hg, rfl⟩
    exact ⟨app, ⟨happ, hin⟩, cell, ⟨hcell, hcin⟩, 32, hn, (), rfl, 32, hm, (), rfl, _,
      (toBytes_of_inUint64 hin).mpr rfl, _, (toBytes_of_inUint64 hcin).mpr rfl, _, ⟨h, hh, rfl⟩,
      g, hg, rfl⟩

/-! ## Agreement with the chain -/

theorem contract_buildMessage_eq (net : Contract.Network) (appId cellId : UInt64)
    (artifactHash : Contract.Hash) :
    Contract.buildMessage net appId cellId artifactHash.bytes =
      messageOf appId.toNat cellId.toNat artifactHash.bytes net.genesisHash.bytes := rfl

theorem inUint64_toNat (n : UInt64) : InUint64 n.toNat := by
  have hlt : n.toNat < 2 ^ 64 := n.toNat_lt
  constructor
  · omega
  · omega

/-- On well-typed arguments the SDK builds the message of the contract. -/
theorem Sdk.buildMessage_contract (net : Contract.Network) (appId cellId : UInt64)
    (artifactHash : Contract.Hash) :
    Sdk.buildMessage (.int appId.toNat) (.int cellId.toNat) (.bytes artifactHash.bytes)
        (.bytes net.genesisHash.bytes) =
      .ok (Contract.buildMessage net appId cellId artifactHash.bytes) :=
  Sdk.buildMessage_eq_ok.mpr ⟨_, _, _, _, rfl, inUint64_toNat _, rfl, inUint64_toNat _,
    congrArg Except.ok artifactHash.length_eq, rfl, congrArg Except.ok net.genesisHash.length_eq,
    rfl, contract_buildMessage_eq net appId cellId artifactHash⟩

/-- The message determines the ids, the artifact and the network: every field
has a fixed width. -/
theorem buildMessage_inj {net net' : Contract.Network} {appId appId' cellId cellId' : UInt64}
    {artifactHash artifactHash' : Contract.Hash}
    (h : Contract.buildMessage net appId cellId artifactHash.bytes =
      Contract.buildMessage net' appId' cellId' artifactHash'.bytes) :
    appId = appId' ∧ cellId = cellId' ∧ artifactHash = artifactHash' ∧
      net.genesisHash = net'.genesisHash := by
  unfold Contract.buildMessage at h
  have hlen : ∀ b b' : Contract.Hash, b.bytes.length = b'.bytes.length := by
    intro b b'
    rw [b.length_eq, b'.length_eq]
  obtain ⟨h, hgenesis⟩ := List.append_inj' h (hlen _ _)
  obtain ⟨h, hartifact⟩ := List.append_inj' h (hlen _ _)
  obtain ⟨h, hcell⟩ := List.append_inj' h (by rw [Contract.itob_length, Contract.itob_length])
  have happ := List.append_cancel_left h
  exact ⟨Contract.itob_injective happ, Contract.itob_injective hcell,
    Contract.FixedBytes.ext_iff'.mpr hartifact, Contract.FixedBytes.ext_iff'.mpr hgenesis⟩

/-- `inscribe` asks the verifier about its own message only. -/
theorem inscribe_congr {net net' : Contract.Network} {ctx : Contract.Context} {cell : UInt64}
    {artifactHash : Contract.Hash} (hgenesis : net'.genesisHash = net.genesisHash)
    (hverify : ∀ sig pubkey,
      net'.falconVerify
          (Contract.buildMessage net ctx.applicationId cell artifactHash.bytes) sig pubkey =
        net.falconVerify
          (Contract.buildMessage net ctx.applicationId cell artifactHash.bytes) sig pubkey)
    (sig uri : Contract.DynamicBytes) (app : Contract.AppData) :
    Contract.inscribe net' ctx cell artifactHash sig uri app =
      Contract.inscribe net ctx cell artifactHash sig uri app := by
  have hm : Contract.buildMessage net' ctx.applicationId cell artifactHash.bytes =
      Contract.buildMessage net ctx.applicationId cell artifactHash.bytes := by
    rw [Contract.buildMessage, hgenesis, Contract.buildMessage]
  simp only [Contract.inscribe, hm, hverify]

/-- The network with another verdict on the message `m'`. -/
def withVerdictAt (net : Contract.Network) (m' : Bytes) (verify' : Bytes → Bytes → Bool) :
    Contract.Network where
  genesisHash := net.genesisHash
  falconVerify m sig pubkey := if m = m' then verify' sig pubkey else net.falconVerify m sig pubkey

/-- The three builders agree, the message binds every component, and an
`inscribe` call is not affected by what the verifier says about the message of
any other application, cell, artifact or network. -/
theorem messages_agree :
    (∀ (net : Contract.Network) (appId cellId : UInt64) (artifactHash : Contract.Hash),
      Sdk.buildMessage (.int appId.toNat) (.int cellId.toNat) (.bytes artifactHash.bytes)
          (.bytes net.genesisHash.bytes) =
        .ok (Contract.buildMessage net appId cellId artifactHash.bytes) ∧
      FalconDet1024.buildMessage (.int appId.toNat) (.int cellId.toNat)
          (.bytes artifactHash.bytes) (.bytes net.genesisHash.bytes) =
        .ok (Contract.buildMessage net appId cellId artifactHash.bytes) ∧
      (Contract.buildMessage net appId cellId artifactHash.bytes).length = 102) ∧
    (∀ (net net' : Contract.Network) (appId appId' cellId cellId' : UInt64)
      (artifactHash artifactHash' : Contract.Hash),
      Contract.buildMessage net appId cellId artifactHash.bytes =
        Contract.buildMessage net' appId' cellId' artifactHash'.bytes →
      appId = appId' ∧ cellId = cellId' ∧ artifactHash = artifactHash' ∧
        net.genesisHash = net'.genesisHash) ∧
    ∀ (net net' : Contract.Network) (ctx : Contract.Context) (appId' cell cell' : UInt64)
      (artifactHash artifactHash' : Contract.Hash) (sig uri : Contract.DynamicBytes)
      (app : Contract.AppData) (verify' : Bytes → Bytes → Bool),
      ¬ (ctx.applicationId = appId' ∧ cell = cell' ∧ artifactHash = artifactHash' ∧
        net.genesisHash = net'.genesisHash) →
      Contract.inscribe
          (withVerdictAt net (Contract.buildMessage net' appId' cell' artifactHash'.bytes) verify')
          ctx cell artifactHash sig uri app =
        Contract.inscribe net ctx cell artifactHash sig uri app := by
  refine ⟨?_, ?_, ?_⟩
  · intro net appId cellId artifactHash
    refine ⟨Sdk.buildMessage_contract net appId cellId artifactHash, ?_, ?_⟩
    · exact FalconDet1024.buildMessage_eq_ok.mpr ⟨_, _, _, _, rfl, inUint64_toNat _, rfl,
        inUint64_toNat _, congrArg Except.ok artifactHash.length_eq, rfl,
        congrArg Except.ok net.genesisHash.length_eq, rfl,
        contract_buildMessage_eq net appId cellId artifactHash⟩
    · rw [contract_buildMessage_eq,
        messageOf_length artifactHash.length_eq net.genesisHash.length_eq]
      rfl
  · intro net net' appId appId' cellId cellId' artifactHash artifactHash' h
    exact buildMessage_inj h
  · intro net net' ctx appId' cell cell' artifactHash artifactHash' sig uri app verify' hne
    have hgenesis : (withVerdictAt net
        (Contract.buildMessage net' appId' cell' artifactHash'.bytes) verify').genesisHash =
        net.genesisHash := rfl
    refine inscribe_congr hgenesis ?_ sig uri app
    intro sig pubkey
    have hm : Contract.buildMessage net ctx.applicationId cell artifactHash.bytes ≠
        Contract.buildMessage net' appId' cell' artifactHash'.bytes := by
      intro h
      exact hne (buildMessage_inj h)
    exact if_neg hm

/-! ## Where the copies differ -/

/-- Both return the same bytes, or both raise. -/
def Agree : Except Error Bytes → Except Error Bytes → Prop
  | .ok a, .ok b => a = b
  | .error _, .error _ => True
  | _, _ => False

/-- An integer, or a boolean, in the range of a `uint64`. -/
def IsUint64 (v : Value) : Prop := ∃ n, v.asInt? = some n ∧ InUint64 n

/-- A buffer of 32 bytes, or a list or tuple of 32 byte values. -/
def IsDigest : Value → Prop
  | .bytes b => b.length = 32
  | .bytearray b => b.length = 32
  | .list xs => xs.length = 32 ∧ ∀ x ∈ xs, IsByte x
  | .tuple xs => xs.length = 32 ∧ ∀ x ∈ xs, IsByte x
  | _ => False

theorem isDigest_iff {v : Value} :
    IsDigest v ↔ len v = .ok 32 ∧ ∃ b, bytesOf v = .ok b := by
  cases v with
  | bytes => simp [IsDigest, len, bytesOf]
  | bytearray => simp [IsDigest, len, bytesOf]
  | list => simp [IsDigest, len, bytesOf, packBytes_eq_ok]
  | tuple => simp [IsDigest, len, bytesOf, packBytes_eq_ok]
  | str => simp [IsDigest, bytesOf]
  | _ => simp [IsDigest, len]

/-- The arguments on which the copy of the SDK returns. -/
theorem Sdk.returns_iff {appId cellId artifactHash genesisHash : Value} :
    (∃ msg, Sdk.buildMessage appId cellId artifactHash genesisHash = .ok msg) ↔
      appId.isBool = false ∧ IsUint64 appId ∧ IsUint64 cellId ∧ IsDigest artifactHash ∧
        IsDigest genesisHash := by
  simp only [Sdk.buildMessage_eq_ok, isDigest_iff]
  constructor
  · intro h
    rcases h with ⟨_, app, cell, h, g, rfl, hin, hcell, hcin, hn, hh, hm, hg, -⟩
    exact ⟨rfl, ⟨app, rfl, hin⟩, ⟨cell, hcell, hcin⟩, ⟨hn, h, hh⟩, hm, g, hg⟩
  · intro h
    rcases h with ⟨hbool, ⟨app, happ, hin⟩, ⟨cell, hcell, hcin⟩, ⟨hn, h, hh⟩, hm, g, hg⟩
    have happ' : appId = .int app := by
      cases appId <;> simp_all [Value.asInt?, Value.isBool]
    exact ⟨_, app, cell, h, g, happ', hin, hcell, hcin, hn, hh, hm, hg, rfl⟩

/-- Where the copy beside the contract returns, the copy of the SDK returns the
same. -/
theorem Sdk.returns_of_falconDet1024 {appId cellId artifactHash genesisHash : Value}
    {msg : Bytes}
    (hok : FalconDet1024.buildMessage appId cellId artifactHash genesisHash = .ok msg) :
    Sdk.buildMessage appId cellId artifactHash genesisHash = .ok msg ∧
      cellId.isBool = false ∧ artifactHash.isSequence = false ∧
      genesisHash.isSequence = false := by
  obtain ⟨app, cell, h, g, happ, hin, rfl, hcin, hn, hh, hm, hg, rfl⟩ :=
    FalconDet1024.buildMessage_eq_ok.mp hok
  have hseq : ∀ {v : Value} {b : Bytes}, v.buffer? = some b → v.isSequence = false := by
    intro v b hb
    cases v <;> simp_all [Value.buffer?, Value.isSequence]
  refine ⟨?_, rfl, hseq hh, hseq hg⟩
  exact Sdk.buildMessage_eq_ok.mpr ⟨app, cell, h, g, happ, hin, rfl, hcin, hn,
    bytesOf_of_buffer hh, hm, bytesOf_of_buffer hg, rfl⟩

/-- The converse, without a boolean cell id and without sequences. -/
theorem FalconDet1024.returns_of_sdk {appId cellId artifactHash genesisHash : Value}
    {msg : Bytes} (hok : Sdk.buildMessage appId cellId artifactHash genesisHash = .ok msg)
    (hcell : cellId.isBool = false) (hart : artifactHash.isSequence = false)
    (hgen : genesisHash.isSequence = false) :
    FalconDet1024.buildMessage appId cellId artifactHash genesisHash = .ok msg := by
  obtain ⟨app, cell, h, g, happ, hin, hc, hcin, hn, hh, hm, hg, rfl⟩ :=
    Sdk.buildMessage_eq_ok.mp hok
  have hc' : cellId = .int cell := by
    cases cellId <;> simp_all [Value.asInt?, Value.isBool]
  have hh' : artifactHash.buffer? = some h := by
    rcases bytesOf_cases hn hh with hb | hs
    · exact hb
    · rw [hart] at hs
      cases hs
  have hg' : genesisHash.buffer? = some g := by
    rcases bytesOf_cases hm hg with hb | hs
    · exact hb
    · rw [hgen] at hs
      cases hs
  exact FalconDet1024.buildMessage_eq_ok.mpr
    ⟨app, cell, h, g, happ, hin, hc', hcin, hn, hh', hm, hg', rfl⟩

/-- The copies agree on what they return and on what they refuse, except where
all arguments have the right size and the cell id is a `bool`, or a hash is a
list or a tuple. -/
theorem copies_agree_iff (appId cellId artifactHash genesisHash : Value) :
    Agree (Sdk.buildMessage appId cellId artifactHash genesisHash)
        (FalconDet1024.buildMessage appId cellId artifactHash genesisHash) ↔
      ¬ (appId.isBool = false ∧ IsUint64 appId ∧ IsUint64 cellId ∧ IsDigest artifactHash ∧
        IsDigest genesisHash ∧
        (cellId.isBool = true ∨ artifactHash.isSequence = true ∨
          genesisHash.isSequence = true)) := by
  cases hsdk : Sdk.buildMessage appId cellId artifactHash genesisHash with
  | error e =>
    have hno : ¬ ∃ msg, Sdk.buildMessage appId cellId artifactHash genesisHash = .ok msg := by
      simp [hsdk]
    rw [Sdk.returns_iff] at hno
    cases hdet : FalconDet1024.buildMessage appId cellId artifactHash genesisHash with
    | error e' =>
      refine iff_of_true trivial fun hdiff => ?_
      exact hno ⟨hdiff.1, hdiff.2.1, hdiff.2.2.1, hdiff.2.2.2.1, hdiff.2.2.2.2.1⟩
    | ok msg =>
      rw [(Sdk.returns_of_falconDet1024 hdet).1] at hsdk
      cases hsdk
  | ok msg =>
    obtain ⟨hbool, happ, hcell, hart, hgen⟩ := Sdk.returns_iff.mp ⟨msg, hsdk⟩
    cases hdet : FalconDet1024.buildMessage appId cellId artifactHash genesisHash with
    | error e =>
      refine iff_of_false id fun hsame => ?_
      simp only [hbool, happ, hcell, hart, hgen, true_and, not_or, Bool.not_eq_true] at hsame
      rw [FalconDet1024.returns_of_sdk hsdk hsame.1 hsame.2.1 hsame.2.2] at hdet
      cases hdet
    | ok msg' =>
      obtain ⟨hsdk', hc, ha, hg⟩ := Sdk.returns_of_falconDet1024 hdet
      rw [hsdk] at hsdk'
      cases hsdk'
      refine iff_of_true rfl ?_
      simp [hc, ha, hg]

/-- The copy of the SDK takes `True` for the cell id 1, where the other copy
raises. -/
theorem sdk_accepts_bool_cell :
    ¬ ∀ appId cellId artifactHash genesisHash : Value,
      Agree (Sdk.buildMessage appId cellId artifactHash genesisHash)
          (FalconDet1024.buildMessage appId cellId artifactHash genesisHash) ∧
        (cellId.isBool = true →
          ∃ e, Sdk.buildMessage appId cellId artifactHash genesisHash = .error e) := by
  intro h
  obtain ⟨hagree, -⟩ := h (.int 1) (.bool true) (.bytes (List.replicate 32 0))
    (.bytes (List.replicate 32 0))
  exact hagree

end Trelyan
