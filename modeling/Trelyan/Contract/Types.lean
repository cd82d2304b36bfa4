import Trelyan.Lib.BoxMap

/-!
# The data of the inscription contract

The constants, byte types and box contents of `contracts/inscription.py`.

* `FixedBytes` and `DynamicBytes` are the ARC-4 byte types.  A fixed array
  carries its length and a dynamic one carries the bound of its two-byte
  length word, so a value of either type always encodes.
* `InscriptionRecord` is the record of an inscription, and `encode` its ARC-4
  tuple encoding: the static fields in order, a two-byte offset for the
  dynamic field, then the length and the bytes of that field.
* The three `BoxMap`s of the contract lie in one box store under the
  prefixes `k_`, `o_` and `i_`.
-/

namespace Trelyan.Contract

/-! ## Protocol constants -/

/-- `b"TRELYAN-INSCRIPTION-v1"`. -/
def domainTag : Bytes :=
  [0x54, 0x52, 0x45, 0x4c, 0x59, 0x41, 0x4e, 0x2d, 0x49, 0x4e, 0x53, 0x43, 0x52, 0x49, 0x50,
    0x54, 0x49, 0x4f, 0x4e, 0x2d, 0x76, 0x31]

def insVersion : UInt8 := 1

def pubkeyLen : Nat := 1793

def sigCompressedMaxlen : Nat := 1423

def hashLen : Nat := 32

def uriMaxlen : Nat := 128

def totalCells : UInt64 := 1024

/-! ## Byte types -/

/-- `arc4.StaticArray[arc4.Byte, n]`: exactly `n` bytes. -/
structure FixedBytes (n : Nat) where
  bytes : Bytes
  length_eq : bytes.length = n
deriving DecidableEq

/-- `Account` and `arc4.Address`: 32 bytes. -/
abbrev Address := FixedBytes 32

/-- A 32-byte digest. -/
abbrev Hash := FixedBytes 32

/-- `arc4.DynamicBytes`: a byte string whose length fits two bytes. -/
structure DynamicBytes where
  native : Bytes
  length_lt : native.length < 65536
deriving DecidableEq

namespace FixedBytes

variable {n : Nat}

theorem ext_iff' {a b : FixedBytes n} : a = b ↔ a.bytes = b.bytes := by
  constructor
  · rintro rfl
    rfl
  · intro h
    cases a
    cases b
    cases h
    rfl

/-- The ARC-4 decoder: the length must be exact. -/
def ofBytes? (n : Nat) (bytes : Bytes) : Option (FixedBytes n) :=
  if h : bytes.length = n then some ⟨bytes, h⟩ else none

@[simp] theorem ofBytes?_bytes (b : FixedBytes n) : ofBytes? n b.bytes = some b :=
  dif_pos b.length_eq

end FixedBytes

/-- `Global.zero_address`. -/
def zeroAddress : Address := ⟨List.replicate 32 0, by simp⟩

instance : Zero Address := ⟨zeroAddress⟩

/-- `op.itob`: eight bytes, big-endian. -/
def itob (n : UInt64) : Bytes := BigEndian.encode 8 n.toNat

/-- `op.btoi`. -/
def btoi (bytes : Bytes) : UInt64 := UInt64.ofNat (BigEndian.decode bytes)

@[simp] theorem itob_length (n : UInt64) : (itob n).length = 8 := BigEndian.encode_length 8 _

@[simp] theorem btoi_itob (n : UInt64) : btoi (itob n) = n := by
  rw [btoi, itob, BigEndian.decode_encode_of_lt n.toNat_lt, UInt64.ofNat_toNat]

theorem itob_injective : Function.Injective itob := fun n m h =>
  UInt64.toNat_inj.mp (BigEndian.encode_inj n.toNat_lt m.toNat_lt h)

namespace DynamicBytes

/-- The ARC-4 encoding of a byte string.  A string of 65536 bytes or more
gets a length word that does not match it. -/
def encodeBytes (bytes : Bytes) : Bytes := BigEndian.encode 2 bytes.length ++ bytes

def encode (b : DynamicBytes) : Bytes := encodeBytes b.native

theorem decode_word_lt (hi lo : UInt8) : BigEndian.decode [hi, lo] < 65536 := by
  simpa using BigEndian.decode_lt [hi, lo]

/-- The ARC-4 decoder: a two-byte length word and exactly that many bytes. -/
def decode : Bytes → Option DynamicBytes
  | hi :: lo :: native =>
    if h : BigEndian.decode [hi, lo] = native.length then
      some ⟨native, h ▸ decode_word_lt hi lo⟩
    else none
  | _ => none

theorem decode_encodeBytes (bytes : Bytes) :
    decode (encodeBytes bytes) =
      if h : bytes.length < 65536 then some ⟨bytes, h⟩ else none := by
  have hword : BigEndian.decode [UInt8.ofNat (bytes.length / 256 ^ 1),
      UInt8.ofNat (bytes.length / 256 ^ 0)] = bytes.length % 65536 :=
    BigEndian.decode_encode 2 bytes.length
  rw [encodeBytes, BigEndian.encode, BigEndian.encode, BigEndian.encode, List.cons_append,
    List.cons_append, List.nil_append, decode]
  by_cases h : bytes.length < 65536
  · rw [dif_pos h, dif_pos (by rw [hword, Nat.mod_eq_of_lt h])]
  · rw [dif_neg h, dif_neg (by rw [hword]; omega)]

@[simp] theorem decode_encode (b : DynamicBytes) : decode b.encode = some b := by
  rw [encode, decode_encodeBytes, dif_pos b.length_lt]

end DynamicBytes

/-! ## The inscription record -/

/-- `InscriptionRecord`: the write-once record of a cell. -/
structure InscriptionRecord where
  version : UInt8
  cellId : UInt64
  artifactHash : Hash
  inscribedRound : UInt64
  inscriber : Address
  payloadUri : DynamicBytes
deriving DecidableEq

namespace InscriptionRecord

/-- The offset of the dynamic field: the width of the static part. -/
def tailOffset : Nat := 83

/-- The ARC-4 encoding of the record. -/
def encode (r : InscriptionRecord) : Bytes :=
  r.version :: (itob r.cellId ++ (r.artifactHash.bytes ++ (itob r.inscribedRound ++
    (r.inscriber.bytes ++ (BigEndian.encode 2 tailOffset ++ r.payloadUri.encode)))))

/-- The ARC-4 decoder, by the slices of the static part. -/
def decode (rec : Bytes) : Option InscriptionRecord :=
  if BigEndian.decode ((rec.drop 81).take 2) = tailOffset then do
    let version ← rec.head?
    let artifactHash ← FixedBytes.ofBytes? 32 ((rec.drop 9).take 32)
    let inscriber ← FixedBytes.ofBytes? 32 ((rec.drop 49).take 32)
    let payloadUri ← DynamicBytes.decode (rec.drop tailOffset)
    pure {
      version
      cellId := btoi ((rec.drop 1).take 8)
      artifactHash
      inscribedRound := btoi ((rec.drop 41).take 8)
      inscriber
      payloadUri }
  else none

/-- Past the field at offset `k`. -/
theorem drop_field {rec field rest : Bytes} {k n : Nat}
    (h : rec.drop k = field ++ rest) (hn : field.length = n) : rec.drop (k + n) = rest := by
  rw [← List.drop_drop, h, List.drop_left' hn]

/-- The encoding cut at each field.  Every field but the last has a fixed
width, so the cuts do not depend on the values. -/
theorem encode_slices (r : InscriptionRecord) :
    r.encode.head? = some r.version ∧
    (r.encode.drop 1).take 8 = itob r.cellId ∧
    (r.encode.drop 9).take 32 = r.artifactHash.bytes ∧
    (r.encode.drop 41).take 8 = itob r.inscribedRound ∧
    (r.encode.drop 49).take 32 = r.inscriber.bytes ∧
    (r.encode.drop 81).take 2 = BigEndian.encode 2 tailOffset ∧
    r.encode.drop 83 = r.payloadUri.encode := by
  have hcell : (itob r.cellId).length = 8 := itob_length _
  have hround : (itob r.inscribedRound).length = 8 := itob_length _
  have hoff : (BigEndian.encode 2 tailOffset).length = 2 := BigEndian.encode_length _ _
  have h1 : r.encode.drop 1 = itob r.cellId ++ _ := rfl
  have h9 : r.encode.drop 9 = r.artifactHash.bytes ++ _ := drop_field h1 hcell
  have h41 : r.encode.drop 41 = itob r.inscribedRound ++ _ :=
    drop_field h9 r.artifactHash.length_eq
  have h49 : r.encode.drop 49 = r.inscriber.bytes ++ _ := drop_field h41 hround
  have h81 : r.encode.drop 81 = BigEndian.encode 2 tailOffset ++ _ :=
    drop_field h49 r.inscriber.length_eq
  have h83 : r.encode.drop 83 = r.payloadUri.encode := drop_field h81 hoff
  refine ⟨rfl, ?_, ?_, ?_, ?_, ?_, h83⟩
  · rw [h1, List.take_left' hcell]
  · rw [h9, List.take_left' r.artifactHash.length_eq]
  · rw [h41, List.take_left' hround]
  · rw [h49, List.take_left' r.inscriber.length_eq]
  · rw [h81, List.take_left' hoff]

theorem decode_encode (r : InscriptionRecord) : decode r.encode = some r := by
  obtain ⟨hversion, hcell, hart, hround, hins, hoff, htail⟩ := encode_slices r
  have hoffset : BigEndian.decode (BigEndian.encode 2 tailOffset) = tailOffset :=
    BigEndian.decode_encode_of_lt (by decide)
  rw [decode, hoff, if_pos hoffset, hversion, hcell, hart, hround, hins,
    show tailOffset = 83 from rfl, htail]
  simp

end InscriptionRecord

/-! ## The boxes -/

/-- A `BoxMap` over raw bytes, keyed by a cell id. -/
def bytesBoxMap (keyPrefix : Bytes) : BoxMap UInt64 Bytes where
  keyPrefix
  encodeKey := itob
  encodeKey_injective := itob_injective
  encode := id
  decode := some
  decode_encode _ := rfl

/-- `committed_pubkey = BoxMap(UInt64, Bytes, key_prefix=b"k_")`. -/
def committedPubkeyMap : BoxMap UInt64 Bytes := bytesBoxMap [0x6b, 0x5f]

/-- `controlling_owner = BoxMap(UInt64, Bytes, key_prefix=b"o_")`. -/
def controllingOwnerMap : BoxMap UInt64 Bytes := bytesBoxMap [0x6f, 0x5f]

/-- `inscriptions = BoxMap(UInt64, InscriptionRecord, key_prefix=b"i_")`. -/
def inscriptionsMap : BoxMap UInt64 InscriptionRecord where
  keyPrefix := [0x69, 0x5f]
  encodeKey := itob
  encodeKey_injective := itob_injective
  encode := InscriptionRecord.encode
  decode := InscriptionRecord.decode
  decode_encode := InscriptionRecord.decode_encode

theorem pubkey_owner_disjoint : committedPubkeyMap.Disjoint controllingOwnerMap :=
  ⟨rfl, by decide⟩

theorem pubkey_inscriptions_disjoint : committedPubkeyMap.Disjoint inscriptionsMap :=
  ⟨rfl, by decide⟩

theorem owner_inscriptions_disjoint : controllingOwnerMap.Disjoint inscriptionsMap :=
  ⟨rfl, by decide⟩

end Trelyan.Contract
