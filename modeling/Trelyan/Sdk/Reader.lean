import Trelyan.Sdk.Message

/-!
# Reading a stored record

Section 5 of `sdk/examples/verify_trelyan.py`, the "live record reconstruction".  It
takes the box of an inscription apart by offsets written by hand, and builds the
signed message again from the hash in it.

`liveRecord` is that section.  `ReadsBack` also has the slices that the script lists
without using them.  The encoder is generated from the declaration of the record
(`InscriptionRecord.encode`).
-/

namespace Trelyan.Sdk

open Contract Py

/-- `xs[a:b]`, for offsets from the start. -/
def slice (a b : Nat) (xs : Bytes) : Bytes := (xs.take b).drop a

theorem slice_eq (a b : Nat) (xs : Bytes) : slice a b xs = (xs.drop a).take (b - a) :=
  List.drop_take

/-- `int.from_bytes(xs, "big")`. -/
def fromBytes (xs : Bytes) : Nat := BigEndian.decode xs

/-- `rec[81:83]` followed to the tail: a length word and that many bytes. -/
def followTail (rec : Bytes) : Bytes :=
  let tail := rec.drop (fromBytes (slice 81 83 rec))
  slice 2 (2 + fromBytes (slice 0 2 tail)) tail

/-- What the section reads, and what each of its checks says. -/
structure LiveRecord where
  cell : Nat
  recordRead : Bool
  versionIsOne : Bool
  cellMatches : Bool
  artifactHash : Bytes
  message : Bytes
  layoutMatches : Bool

/-- The section, on the name and the contents of a box. -/
def liveRecord (appId : Nat) (genesisHash name rec : Bytes) : Except Error LiveRecord := do
  let cell := fromBytes (name.drop 2)
  let version ← match rec.head? with
    | some b => Except.ok b
    | none => .error (.exception "IndexError" "index out of range")
  let recCell := fromBytes (slice 1 9 rec)
  let art32 := slice 9 41 rec
  let m ← buildMessage (.int appId) (.int cell) (.bytes art32) (.bytes genesisHash)
  let app ← toBytes appId 8
  .ok {
    cell
    recordRead := decide (rec.length ≥ 83)
    versionIsOne := decide (version = 1)
    cellMatches := decide (recCell = cell)
    artifactHash := art32
    message := m
    layoutMatches := decide (slice 0 22 m = domainTag ∧ slice 22 30 m = app ∧
      slice 38 70 m = art32 ∧ m.drop 70 = genesisHash) }

/-! ## The slices -/

/-- Every slice is the field that it is said to be. -/
structure ReadsBack (r : InscriptionRecord) (rec : Bytes) : Prop where
  version : rec[0]? = some r.version
  cellId : fromBytes (slice 1 9 rec) = r.cellId.toNat
  artifactHash : slice 9 41 rec = r.artifactHash.bytes
  inscribedRound : fromBytes (slice 41 49 rec) = r.inscribedRound.toNat
  inscriber : slice 49 81 rec = r.inscriber.bytes
  offset : fromBytes (slice 81 83 rec) = 83
  payloadUri : followTail rec = r.payloadUri.native
  length : rec.length = 85 + r.payloadUri.native.length

theorem fromBytes_itob (n : UInt64) : fromBytes (itob n) = n.toNat :=
  BigEndian.decode_encode_of_lt n.toNat_lt

/-- The length word of a byte string, and the bytes after it. -/
theorem tail_encode (b : DynamicBytes) :
    slice 2 (2 + fromBytes (slice 0 2 b.encode)) b.encode = b.native := by
  have hlen : (BigEndian.encode 2 b.native.length).length = 2 := BigEndian.encode_length 2 _
  have hword : slice 0 2 b.encode = BigEndian.encode 2 b.native.length := by
    rw [slice_eq]
    exact List.take_left' hlen
  have hnative : b.encode.drop 2 = b.native := List.drop_left' hlen
  rw [hword, fromBytes, BigEndian.decode_encode_of_lt b.length_lt, slice_eq, hnative,
    Nat.add_sub_cancel_left, List.take_length]

theorem readsBack_encode (r : InscriptionRecord) : ReadsBack r r.encode := by
  obtain ⟨hversion, hcell, hart, hround, hins, hoff, htail⟩ := r.encode_slices
  have hoffset : fromBytes (slice 81 83 r.encode) = 83 := by
    rw [slice_eq, hoff]
    exact BigEndian.decode_encode_of_lt (by decide)
  refine ⟨?_, ?_, ?_, ?_, ?_, hoffset, ?_, ?_⟩
  · rw [← List.head?_eq_getElem?, hversion]
  · rw [slice_eq, hcell, fromBytes_itob]
  · rw [slice_eq, hart]
  · rw [slice_eq, hround, fromBytes_itob]
  · rw [slice_eq, hins]
  · unfold followTail
    rw [hoffset, htail]
    exact tail_encode r.payloadUri
  · simp only [InscriptionRecord.encode, DynamicBytes.encode, DynamicBytes.encodeBytes,
      List.length_cons, List.length_append, itob_length, BigEndian.encode_length,
      r.artifactHash.length_eq, r.inscriber.length_eq]
    omega

theorem encode_injective : Function.Injective InscriptionRecord.encode := by
  intro r r' h
  have hdecode := InscriptionRecord.decode_encode r
  rw [h, InscriptionRecord.decode_encode] at hdecode
  exact (Option.some.inj hdecode).symm

/-! ## The message -/

/-- The pieces of the message at the offsets of the specification. -/
theorem message_slices (net : Network) (appId cellId : UInt64) (artifactHash : Hash) :
    let m := Contract.buildMessage net appId cellId artifactHash.bytes
    slice 0 22 m = Contract.domainTag ∧ slice 22 30 m = itob appId ∧
      slice 38 70 m = artifactHash.bytes ∧ m.drop 70 = net.genesisHash.bytes := by
  dsimp only
  simp only [Contract.buildMessage, slice_eq, List.append_assoc]
  have happ : (itob appId).length = 8 := itob_length appId
  have hcell : (itob cellId).length = 8 := itob_length cellId
  have h22 : ∀ rest, (Contract.domainTag ++ (itob appId ++ rest)).drop 22 = itob appId ++ rest :=
    fun rest => List.drop_left' rfl
  have h38 : ∀ rest, (Contract.domainTag ++ (itob appId ++ (itob cellId ++ rest))).drop 38 = rest :=
    fun rest => InscriptionRecord.drop_field (InscriptionRecord.drop_field (h22 _) happ) hcell
  have h70 : ∀ rest, (Contract.domainTag ++ (itob appId ++ (itob cellId ++
      (artifactHash.bytes ++ rest)))).drop 70 = rest :=
    fun rest => InscriptionRecord.drop_field (h38 _) artifactHash.length_eq
  refine ⟨List.take_left' rfl, ?_, ?_, h70 _⟩
  · rw [h22, List.take_left' happ]
  · rw [h38, List.take_left' artifactHash.length_eq]

/-- On the box of a record the section reads its hash, builds the message of the contract again,
and all its checks pass. -/
theorem liveRecord_encode (net : Network) (appId : UInt64) (r : InscriptionRecord)
    (hversion : r.version = 1) :
    liveRecord appId.toNat net.genesisHash.bytes (inscriptionsMap.name r.cellId) r.encode = .ok {
      cell := r.cellId.toNat
      recordRead := true
      versionIsOne := true
      cellMatches := true
      artifactHash := r.artifactHash.bytes
      message := Contract.buildMessage net appId r.cellId r.artifactHash.bytes
      layoutMatches := true } := by
  have hread := readsBack_encode r
  have hhead : r.encode.head? = some 1 := by
    rw [List.head?_eq_getElem?, hread.version, hversion]
  have hname : fromBytes ((inscriptionsMap.name r.cellId).drop 2) = r.cellId.toNat := by
    rw [show (inscriptionsMap.name r.cellId).drop 2 = itob r.cellId from rfl, fromBytes_itob]
  have hm := buildMessage_contract net appId r.cellId r.artifactHash
  have happ : toBytes appId.toNat 8 = .ok (itob appId) :=
    (toBytes_of_inUint64 (inUint64_toNat appId)).mpr rfl
  have hlayout := message_slices net appId r.cellId r.artifactHash
  unfold liveRecord
  rw [hname, hhead, hread.artifactHash, hread.cellId, hread.length]
  show (buildMessage _ _ _ _ >>= _) = _
  rw [hm]
  show (toBytes _ _ >>= _) = _
  rw [happ]
  show Except.ok _ = _
  congr 1
  rw [decide_eq_true (show 85 + r.payloadUri.native.length ≥ 83 by omega),
    decide_eq_true (show (1 : UInt8) = 1 from rfl), decide_eq_true rfl]
  congr 1
  exact decide_eq_true hlayout

/-! ## The stored record -/

/-- Every record is read back from its box, and the message that the reader builds is the one
that `inscribe` passed to the verifier. -/
theorem stored_record_decodes :
    (∀ r : InscriptionRecord, r.payloadUri.native.length ≤ 128 →
      ReadsBack r r.encode ∧ r.encode.length ≤ 213) ∧
    Function.Injective InscriptionRecord.encode ∧
    ∀ (net : Network) (ctx : Context) (cell : UInt64) (artifactHash : Hash)
      (sig uri : DynamicBytes) (app app' : AppData),
      Contract.inscribe net ctx cell artifactHash sig uri app = .ok app' →
        ∃ rec pubkey live,
          app'.boxes.lookup (inscriptionsMap.name cell) = some rec ∧
          ReadsBack ⟨insVersion, cell, artifactHash, ctx.round, ctx.sender, uri⟩ rec ∧
          rec.length ≤ 213 ∧
          liveRecord ctx.applicationId.toNat net.genesisHash.bytes (inscriptionsMap.name cell)
            rec = .ok live ∧
          live.message =
            Contract.buildMessage net ctx.applicationId cell artifactHash.bytes ∧
          live.recordRead = true ∧ live.versionIsOne = true ∧ live.cellMatches = true ∧
          live.layoutMatches = true ∧
          app.committedPubkey cell = some pubkey ∧
          net.falconVerify live.message sig.native pubkey = true := by
  refine ⟨?_, encode_injective, ?_⟩
  · intro r huri
    have hread := readsBack_encode r
    refine ⟨hread, ?_⟩
    rw [hread.length]
    omega
  · intro net ctx cell artifactHash sig uri app app' h
    obtain ⟨hguard, rfl⟩ := inscribe_eq_ok.mp h
    obtain ⟨pubkey, hpubkey, hverify⟩ := hguard.verified
    have huri : uri.native.length ≤ 128 := hguard.uri_length
    have hread := readsBack_encode
      ⟨insVersion, cell, artifactHash, ctx.round, ctx.sender, uri⟩
    refine ⟨_, pubkey, _, ?_, hread, ?_, liveRecord_encode net ctx.applicationId
      ⟨insVersion, cell, artifactHash, ctx.round, ctx.sender, uri⟩ rfl, rfl, rfl, rfl, rfl, rfl,
      hpubkey, hverify⟩
    · have hbox := AppData.setInscription_inscriptionBox app cell cell
        ⟨insVersion, cell, artifactHash, ctx.round, ctx.sender, uri⟩
      rw [if_pos rfl] at hbox
      exact hbox
    · rw [hread.length]
      dsimp only
      omega

end Trelyan.Sdk
