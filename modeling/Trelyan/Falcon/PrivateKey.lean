import Trelyan.Falcon.Keys
import Trelyan.Falcon.Verify

/-!
# Private keys

A private key is a header and the coefficients of `f`, `g` and `F`, each of a fixed width.
`falcon_keygen_make` writes it, with the public key beside it.  `falcon_make_public` reads
`f` and `g` and computes the public key again, and the signers read all three polynomials
and complete them by `G`.

The signers read what the writer writes and nothing else (`decodePrivkey_iff`), the two
ways to a public key agree (`makePublic_of_keygen`), and `G` is found whenever the equation
of the key pair has a small solution (`loadPrivkey_iff`).
-/

namespace Trelyan.Falcon.PrivateKey

open Trelyan.Falcon.Core (errSize errInternal)
open Reference (errFormat pubkeySizeOf)
open Codec (trimI8Encode trimI8Decode fixedLen)
open Verify (errBadarg)
open Vrfy (computePublic completePrivate)

/-! ## The functions -/

/-- `Zf(max_fg_bits)`. -/
def maxFgBits : List Nat := [0, 8, 8, 8, 8, 8, 7, 7, 6, 6, 5]

/-- `Zf(max_FG_bits)`. -/
def maxFGBits : List Nat := [0, 8, 8, 8, 8, 8, 8, 8, 8, 8, 8]

/-- `FALCON_PRIVKEY_SIZE(logn)`. -/
def privkeySizeOf (logn : Nat) : Nat :=
  (if logn ≤ 3 then 3 * 2 ^ logn else (10 - logn / 2) * 2 ^ (logn - 2) + 2 ^ logn) + 1

/-- `FALCON_TMPSIZE_KEYGEN(logn)`. -/
def tmpsizeKeygen (logn : Nat) : Nat :=
  (if logn ≤ 3 then 272 else 28 * 2 ^ logn) + 3 * 2 ^ logn + 7

/-- `FALCON_TMPSIZE_MAKEPUB(logn)`. -/
def tmpsizeMakepub (logn : Nat) : Nat := 6 * 2 ^ logn + 1

/-- "Encode private key", in `falcon_keygen_make`. -/
def encodePrivkey (logn : Nat) (f g F : List Int8) : Except Int Bytes :=
  let skLen := privkeySizeOf logn
  match trimI8Encode (skLen - 1) logn (maxFgBits.getD logn 0) f with
  | none => .error errInternal
  | some bf =>
    match trimI8Encode (skLen - (1 + bf.length)) logn (maxFgBits.getD logn 0) g with
    | none => .error errInternal
    | some bg =>
      match trimI8Encode (skLen - (1 + bf.length + bg.length)) logn (maxFGBits.getD logn 0) F with
      | none => .error errInternal
      | some bF =>
        if 1 + bf.length + bg.length + bF.length ≠ skLen then .error errInternal
        else .ok (UInt8.ofNat (0x50 + logn) :: (bf ++ (bg ++ bF)))

/-- `pk[0] = 0x00 + logn; v = Zf(modq_encode)(..)`, and the check of `v`. -/
def encodePubkey (logn : Nat) (h : List UInt16) : Except Int Bytes :=
  match Codec.modqEncode (pubkeySizeOf logn - 1) logn h with
  | none => .error errInternal
  | some out =>
    if out.length ≠ pubkeySizeOf logn - 1 then .error errInternal
    else .ok (UInt8.ofNat logn :: out)

/-- `falcon_keygen_make`, over what `Zf(keygen)` leaves in `f`, `g` and `F`; without
`pubkeyLen` for the null pointer. -/
def keygenMake (logn : Nat) (f g F : List Int8) (privkeyLen : Nat) (pubkeyLen : Option Nat)
    (tmpLen : Nat) : Except Int (Bytes × Option Bytes) :=
  if logn < 1 ∨ logn > 10 then .error errBadarg
  else if privkeyLen < privkeySizeOf logn ∨ pubkeyLen.any (· < pubkeySizeOf logn) = true ∨
      tmpLen < tmpsizeKeygen logn then .error errSize
  else
    match encodePrivkey logn f g F with
    | .error r => .error r
    | .ok sk =>
      if pubkeyLen.isSome then
        match computePublic logn f g with
        | none => .error errInternal
        | some h => (encodePubkey logn h).map fun pk => (sk, some pk)
      else .ok (sk, none)

/-- The checks of the header byte and the size, in each function that reads a private key. -/
def privkeyDegree (sk : Bytes) : Except Int Nat :=
  let sk0 := sk.headD 0
  let logn := (sk0 &&& 0x0F).toNat
  if sk.length = 0 then .error errFormat
  else if sk0 &&& 0xF0 ≠ 0x50 then .error errFormat
  else if logn < 1 ∨ logn > 10 then .error errFormat
  else if sk.length ≠ privkeySizeOf logn then .error errFormat
  else .ok logn

/-- `f`, `g`, and the number of bytes read. -/
def decodeFg (logn : Nat) (sk : Bytes) : Except Int (List Int8 × List Int8 × Nat) :=
  match trimI8Decode logn (maxFgBits.getD logn 0) (sk.drop 1) with
  | none => .error errFormat
  | some (f, v) =>
    match trimI8Decode logn (maxFgBits.getD logn 0) (sk.drop (1 + v)) with
    | none => .error errFormat
    | some (g, w) => .ok (f, g, 1 + v + w)

/-- `falcon_make_public`. -/
def makePublic (sk : Bytes) (pubkeyLen tmpLen : Nat) : Except Int Bytes :=
  match privkeyDegree sk with
  | .error r => .error r
  | .ok logn =>
    if pubkeyLen < pubkeySizeOf logn ∨ tmpLen < tmpsizeMakepub logn then .error errSize
    else
      match decodeFg logn sk with
      | .error r => .error r
      | .ok (f, g, _) =>
        match computePublic logn f g with
        | none => .error errFormat
        | some h => encodePubkey logn h

/-- "Decode private key elements", in `falcon_sign_dyn_finish` and `falcon_expand_privkey`. -/
def decodeElements (logn : Nat) (sk : Bytes) :
    Except Int (List Int8 × List Int8 × List Int8) :=
  match decodeFg logn sk with
  | .error r => .error r
  | .ok (f, g, u) =>
    match trimI8Decode logn (maxFGBits.getD logn 0) (sk.drop u) with
    | none => .error errFormat
    | some (F, v) => if u + v ≠ sk.length then .error errFormat else .ok (f, g, F)

/-- ".., and complete private key". -/
def completeElements (logn : Nat) (sk : Bytes) :
    Except Int (List Int8 × List Int8 × List Int8 × List Int8) :=
  match decodeElements logn sk with
  | .error r => .error r
  | .ok (f, g, F) =>
    match completePrivate logn f g F with
    | none => .error errFormat
    | some G => .ok (f, g, F, G)

/-! ## The format -/

/-- `a` is the one encoding of `x`. -/
def Encodes (logn bits : Nat) (x : List Int8) (a : Bytes) : Prop :=
  x.length = 2 ^ logn ∧ trimI8Encode a.length logn bits x = some a

section Fields

variable {logn bits : Nat} {x : List Int8} {a : Bytes}

theorem Encodes.length (hpos : 0 < bits) (hbits : bits ≤ 8) (h : Encodes logn bits x a) :
    a.length = fixedLen logn bits :=
  Codec.length_trimEncode (T := Codec.int8) hpos hbits h.1 h.2

/-- A larger buffer makes no difference. -/
theorem trimI8Encode_iff (hpos : 0 < bits) (hbits : bits ≤ 8) {maxOutLen : Nat}
    (hx : x.length = 2 ^ logn) :
    trimI8Encode maxOutLen logn bits x = some a ↔
      Encodes logn bits x a ∧ fixedLen logn bits ≤ maxOutLen := by
  have hiff := fun n => @Codec.trimEncode_eq_some _ Codec.int8 n logn bits hpos hbits x a
  constructor
  · intro h
    have hlen := Codec.length_trimEncode (T := Codec.int8) hpos hbits hx h
    obtain ⟨hvalid, hmax, hpacks⟩ := (hiff _).mp h
    exact ⟨⟨hx, (hiff _).mpr ⟨hvalid, le_of_eq hlen.symm, hpacks⟩⟩, hmax⟩
  · intro ⟨⟨_, h⟩, hmax⟩
    obtain ⟨hvalid, _, hpacks⟩ := (hiff _).mp h
    exact (hiff _).mpr ⟨hvalid, hmax, hpacks⟩

/-- The decoder reads an encoding off the front. -/
theorem trimI8Decode_iff (hpos : 0 < bits) (hbits : bits ≤ 8) {input : Bytes} {v : Nat} :
    trimI8Decode logn bits input = some (x, v) ↔
      ∃ a rest, input = a ++ rest ∧ v = a.length ∧ Encodes logn bits x a := by
  constructor
  · intro h
    obtain ⟨hx, hv, hencoded⟩ := (Codec.trimDecode_iff (T := Codec.int8) hpos hbits).mp h
    have hlen : (input.take v).length = v := List.length_take_of_le hv
    refine ⟨input.take v, input.drop v, (List.take_append_drop v input).symm, hlen.symm, hx, ?_⟩
    rw [hlen]
    exact hencoded
  · intro ⟨a, rest, hinput, hv, hx, hencoded⟩
    subst hinput hv
    refine (Codec.trimDecode_iff (T := Codec.int8) hpos hbits).mpr ⟨hx, ?_, ?_⟩
    · rw [List.length_append]
      exact Nat.le_add_right _ _
    · rw [List.take_left' rfl]
      exact hencoded

end Fields

/-- The widths, and the size that they add up to. -/
theorem bits_spec : ∀ logn ≤ 10, 1 ≤ logn →
    (0 < maxFgBits.getD logn 0 ∧ maxFgBits.getD logn 0 ≤ 8) ∧
      (0 < maxFGBits.getD logn 0 ∧ maxFGBits.getD logn 0 ≤ 8) ∧
      privkeySizeOf logn = 1 + fixedLen logn (maxFgBits.getD logn 0) +
        fixedLen logn (maxFgBits.getD logn 0) + fixedLen logn (maxFGBits.getD logn 0) := by
  decide

/-- The bytes are the header and the encodings of the three polynomials. -/
def EncodesPrivkey (logn : Nat) (f g F : List Int8) (sk : Bytes) : Prop :=
  ∃ bf bg bF, sk = UInt8.ofNat (0x50 + logn) :: (bf ++ (bg ++ bF)) ∧
    Encodes logn (maxFgBits.getD logn 0) f bf ∧ Encodes logn (maxFgBits.getD logn 0) g bg ∧
      Encodes logn (maxFGBits.getD logn 0) F bF

variable {logn : Nat} {f g F : List Int8} {sk : Bytes}

/-- What `falcon_keygen_make` writes. -/
theorem encodePrivkey_iff (hpos : 1 ≤ logn) (hlogn : logn ≤ 10) (hf : f.length = 2 ^ logn)
    (hg : g.length = 2 ^ logn) (hF : F.length = 2 ^ logn) :
    encodePrivkey logn f g F = .ok sk ↔ EncodesPrivkey logn f g F sk := by
  obtain ⟨⟨h1, h2⟩, ⟨h3, h4⟩, hsize⟩ := bits_spec logn hlogn hpos
  unfold encodePrivkey
  dsimp only
  constructor
  · intro h
    cases hbf : trimI8Encode (privkeySizeOf logn - 1) logn (maxFgBits.getD logn 0) f with
    | none =>
      rw [hbf] at h
      cases h
    | some bf =>
      rw [hbf] at h
      dsimp only at h
      cases hbg : trimI8Encode (privkeySizeOf logn - (1 + bf.length)) logn
        (maxFgBits.getD logn 0) g with
      | none =>
        rw [hbg] at h
        cases h
      | some bg =>
        rw [hbg] at h
        dsimp only at h
        cases hbF : trimI8Encode (privkeySizeOf logn - (1 + bf.length + bg.length)) logn
          (maxFGBits.getD logn 0) F with
        | none =>
          rw [hbF] at h
          cases h
        | some bF =>
          rw [hbF] at h
          dsimp only at h
          split_ifs at h
          exact ⟨bf, bg, bF, (Except.ok.inj h).symm, ((trimI8Encode_iff h1 h2 hf).mp hbf).1,
            ((trimI8Encode_iff h1 h2 hg).mp hbg).1, ((trimI8Encode_iff h3 h4 hF).mp hbF).1⟩
  · intro ⟨bf, bg, bF, hsk, hbf, hbg, hbF⟩
    have hlf := hbf.length h1 h2
    have hlg := hbg.length h1 h2
    have hlF := hbF.length h3 h4
    rw [(trimI8Encode_iff h1 h2 hf).mpr ⟨hbf, by omega⟩]
    dsimp only
    rw [(trimI8Encode_iff h1 h2 hg).mpr ⟨hbg, by omega⟩]
    dsimp only
    rw [(trimI8Encode_iff h3 h4 hF).mpr ⟨hbF, by omega⟩]
    dsimp only
    rw [if_neg (by omega), hsk]

/-! ## The readers -/

theorem privkey_byte : ∀ b : UInt8, b &&& 0xF0 = 0x50 →
    b = UInt8.ofNat (0x50 + (b &&& 0x0F).toNat) :=
  Reference.forall_byte (by decide +kernel)

theorem privkey_nibbles : ∀ logn ≤ 10, UInt8.ofNat (0x50 + logn) &&& 0xF0 = 0x50 ∧
    (UInt8.ofNat (0x50 + logn) &&& 0x0F).toNat = logn := by
  decide

theorem privkeyDegree_iff :
    privkeyDegree sk = .ok logn ↔
      1 ≤ logn ∧ logn ≤ 10 ∧ sk.head? = some (UInt8.ofNat (0x50 + logn)) ∧
        sk.length = privkeySizeOf logn := by
  unfold privkeyDegree
  dsimp only
  cases sk with
  | nil => simp
  | cons b body =>
    rw [List.headD_cons, List.head?_cons, Option.some.injEq]
    constructor
    · intro h
      rw [if_neg (by simp)] at h
      split_ifs at h with h2 h3 h4
      have hdegree := Except.ok.inj h
      have hbyte := privkey_byte b (not_not.mp h2)
      rw [hdegree] at hbyte h3 h4
      exact ⟨by omega, by omega, hbyte, not_not.mp h4⟩
    · intro ⟨hpos, hlogn, hbyte, hlen⟩
      obtain ⟨hnibble, hdegree⟩ := privkey_nibbles logn hlogn
      rw [← hbyte] at hnibble hdegree
      rw [if_neg (by simp), if_neg (not_not.mpr hnibble), hdegree, if_neg (by omega),
        if_neg (not_not.mpr hlen)]

/-- `f` and `g` are read off the front. -/
theorem decodeFg_iff (hpos : 1 ≤ logn) (hlogn : logn ≤ 10) {b : UInt8} {body : Bytes} {u : Nat} :
    decodeFg logn (b :: body) = .ok (f, g, u) ↔
      ∃ bf bg rest, body = bf ++ (bg ++ rest) ∧ u = 1 + bf.length + bg.length ∧
        Encodes logn (maxFgBits.getD logn 0) f bf ∧ Encodes logn (maxFgBits.getD logn 0) g bg := by
  obtain ⟨⟨h1, h2⟩, -, -⟩ := bits_spec logn hlogn hpos
  unfold decodeFg
  rw [List.drop_succ_cons, List.drop_zero]
  constructor
  · intro h
    cases hf : trimI8Decode logn (maxFgBits.getD logn 0) body with
    | none =>
      rw [hf] at h
      cases h
    | some p =>
      rw [hf] at h
      dsimp only at h
      cases hg : trimI8Decode logn (maxFgBits.getD logn 0) ((b :: body).drop (1 + p.2)) with
      | none =>
        rw [hg] at h
        cases h
      | some r =>
        rw [hg] at h
        cases h
        obtain ⟨bf, rest, hbody, hv, hbf⟩ := (trimI8Decode_iff h1 h2).mp hf
        rw [hbody, hv, Nat.add_comm, List.drop_succ_cons, List.drop_left' rfl] at hg
        obtain ⟨bg, rest', hrest, hw, hbg⟩ := (trimI8Decode_iff h1 h2).mp hg
        exact ⟨bf, bg, rest', by rw [hbody, hrest], by rw [hv, hw], hbf, hbg⟩
  · intro ⟨bf, bg, rest, hbody, hu, hbf, hbg⟩
    have hf := (trimI8Decode_iff h1 h2).mpr ⟨bf, bg ++ rest, rfl, rfl, hbf⟩
    have hg := (trimI8Decode_iff h1 h2).mpr ⟨bg, rest, rfl, rfl, hbg⟩
    rw [hbody, hf]
    dsimp only
    rw [Nat.add_comm 1, List.drop_succ_cons, List.drop_left' rfl, hg, hu, Nat.add_comm 1]

/-- What the signers accept. -/
theorem decodeElements_iff (hpos : 1 ≤ logn) (hlogn : logn ≤ 10)
    (hheader : sk.head? = some (UInt8.ofNat (0x50 + logn))) :
    decodeElements logn sk = .ok (f, g, F) ↔ EncodesPrivkey logn f g F sk := by
  obtain ⟨-, ⟨h3, h4⟩, -⟩ := bits_spec logn hlogn hpos
  obtain ⟨body, rfl⟩ : ∃ body, sk = UInt8.ofNat (0x50 + logn) :: body :=
    List.head?_eq_some_iff.mp hheader
  have hdrop : ∀ bf bg rest : Bytes,
      (UInt8.ofNat (0x50 + logn) :: (bf ++ (bg ++ rest))).drop (1 + bf.length + bg.length) =
        rest := by
    intro bf bg rest
    rw [show 1 + bf.length + bg.length = (bf.length + bg.length) + 1 by omega,
      List.drop_succ_cons, ← List.drop_drop, List.drop_left' rfl, List.drop_left' rfl]
  unfold decodeElements
  constructor
  · intro h
    cases hfg : decodeFg logn (UInt8.ofNat (0x50 + logn) :: body) with
    | error r =>
      rw [hfg] at h
      cases h
    | ok p =>
      rw [hfg] at h
      dsimp only at h
      obtain ⟨bf, bg, rest, hbody, hu, hbf, hbg⟩ := (decodeFg_iff hpos hlogn).mp hfg
      rw [hbody, hu, hdrop] at h
      cases hF : trimI8Decode logn (maxFGBits.getD logn 0) rest with
      | none =>
        rw [hF] at h
        cases h
      | some r =>
        rw [hF] at h
        dsimp only at h
        split_ifs at h with hend
        obtain ⟨bF, rest', hrest, hv, hbF⟩ := (trimI8Decode_iff h3 h4).mp hF
        have hlen : rest'.length = 0 := by
          rw [not_not, hrest, hv] at hend
          simp only [List.length_cons, List.length_append] at hend
          omega
        rw [List.length_eq_zero_iff.mp hlen, List.append_nil] at hrest
        cases h
        exact ⟨bf, bg, bF, by rw [hbody, hrest], hbf, hbg, hbF⟩
  · intro ⟨bf, bg, bF, hsk, hbf, hbg, hbF⟩
    have hbody := List.tail_eq_of_cons_eq hsk
    rw [(decodeFg_iff hpos hlogn).mpr ⟨bf, bg, bF, hbody, rfl, hbf, hbg⟩]
    dsimp only
    rw [hbody, hdrop, (trimI8Decode_iff h3 h4).mpr
      ⟨bF, [], (List.append_nil bF).symm, rfl, hbF⟩]
    dsimp only
    rw [if_neg]
    simp only [List.length_cons, List.length_append]
    omega

theorem EncodesPrivkey.head (h : EncodesPrivkey logn f g F sk) :
    sk.head? = some (UInt8.ofNat (0x50 + logn)) := by
  obtain ⟨bf, bg, bF, hsk, -⟩ := h
  rw [hsk]
  rfl

theorem EncodesPrivkey.size (hpos : 1 ≤ logn) (hlogn : logn ≤ 10)
    (h : EncodesPrivkey logn f g F sk) : sk.length = privkeySizeOf logn := by
  obtain ⟨⟨h1, h2⟩, ⟨h3, h4⟩, hsize⟩ := bits_spec logn hlogn hpos
  obtain ⟨bf, bg, bF, hsk, hbf, hbg, hbF⟩ := h
  have hlf := hbf.length h1 h2
  have hlg := hbg.length h1 h2
  have hlF := hbF.length h3 h4
  rw [hsk, List.length_cons, List.length_append, List.length_append]
  omega

/-- The signers read what `falcon_keygen_make` writes, and nothing else. -/
theorem decodePrivkey_iff :
    (privkeyDegree sk = .ok logn ∧ decodeElements logn sk = .ok (f, g, F)) ↔
      1 ≤ logn ∧ logn ≤ 10 ∧ EncodesPrivkey logn f g F sk := by
  rw [privkeyDegree_iff]
  constructor
  · intro ⟨⟨hpos, hlogn, hheader, _⟩, helements⟩
    exact ⟨hpos, hlogn, (decodeElements_iff hpos hlogn hheader).mp helements⟩
  · intro ⟨hpos, hlogn, h⟩
    exact ⟨⟨hpos, hlogn, h.head, h.size hpos hlogn⟩, (decodeElements_iff hpos hlogn h.head).mpr h⟩

/-! ## The public key -/

theorem encodePubkey_iff {h : List UInt16} {pk : Bytes} (hlen : h.length = 2 ^ logn) :
    encodePubkey logn h = .ok pk ↔ Verify.EncodesKey logn pk h := by
  have hsize := Verify.pubkeySizeOf_pos logn
  unfold encodePubkey
  constructor
  · intro hpk
    cases hout : Codec.modqEncode (pubkeySizeOf logn - 1) logn h with
    | none =>
      rw [hout] at hpk
      cases hpk
    | some out =>
      rw [hout] at hpk
      dsimp only at hpk
      split_ifs at hpk with hv
      cases hpk
      refine ⟨rfl, ?_, hlen, ?_⟩
      · rw [List.length_cons]
        omega
      · rw [List.length_cons, Nat.add_sub_cancel, not_not.mp hv, List.tail_cons]
        exact hout
  · intro ⟨hheader, hlength, _, hencoded⟩
    obtain ⟨out, rfl⟩ := List.head?_eq_some_iff.mp hheader
    rw [List.length_cons] at hlength
    rw [List.length_cons, Nat.add_sub_cancel, List.tail_cons] at hencoded
    have hout : pubkeySizeOf logn - 1 = out.length := by omega
    rw [hout, hencoded]
    dsimp only
    rw [if_neg (not_not.mpr rfl)]

/-- The public keys of a pair `f`, `g`: the encoding of the one `h` with `h f = g`. -/
structure PublicOf (logn : Nat) (f g : List Int8) (pk : Bytes) (h : List UInt16) : Prop where
  invertible : Vrfy.Invertible logn (Vrfy.residues f)
  key : Verify.EncodesKey logn pk h
  equation : ∀ k < 2 ^ logn,
    Vrfy.ringMul logn (Vrfy.coeff h) (Vrfy.residues f) k = Vrfy.residues g k

theorem publicOf_iff (hlogn : logn ≤ 10) (hf : f.length = 2 ^ logn) (hg : g.length = 2 ^ logn)
    {pk : Bytes} {h : List UInt16} :
    PublicOf logn f g pk h ↔ computePublic logn f g = some h ∧ encodePubkey logn h = .ok pk := by
  rw [Vrfy.computePublic_iff hlogn hf hg]
  constructor
  · intro ⟨hinv, hkey, heq⟩
    have hred : ∀ w ∈ h, Vrfy.Reduced w := fun w hw =>
      UInt16.lt_iff_toNat_lt.mp ((Codec.modqEncode_eq_some.mp hkey.encoded).1 w hw)
    exact ⟨⟨hinv, hkey.length, hred, heq⟩, (encodePubkey_iff hkey.length).mpr hkey⟩
  · intro ⟨⟨hinv, hlen, _, heq⟩, hpk⟩
    exact ⟨hinv, (encodePubkey_iff hlen).mp hpk, heq⟩

/-- What `falcon_make_public` writes. -/
theorem makePublic_iff {pubkeyLen tmpLen : Nat} {pk : Bytes} :
    makePublic sk pubkeyLen tmpLen = .ok pk ↔
      ∃ logn bf bg rest f g h, 1 ≤ logn ∧ logn ≤ 10 ∧ sk.length = privkeySizeOf logn ∧
        sk = UInt8.ofNat (0x50 + logn) :: (bf ++ (bg ++ rest)) ∧
        Encodes logn (maxFgBits.getD logn 0) f bf ∧ Encodes logn (maxFgBits.getD logn 0) g bg ∧
        pubkeySizeOf logn ≤ pubkeyLen ∧ tmpsizeMakepub logn ≤ tmpLen ∧
        PublicOf logn f g pk h := by
  unfold makePublic
  constructor
  · intro hpk
    cases hdegree : privkeyDegree sk with
    | error r =>
      rw [hdegree] at hpk
      cases hpk
    | ok logn =>
      rw [hdegree] at hpk
      dsimp only at hpk
      obtain ⟨hpos, hlogn, hheader, hsize⟩ := privkeyDegree_iff.mp hdegree
      obtain ⟨body, rfl⟩ := List.head?_eq_some_iff.mp hheader
      split_ifs at hpk with hroom
      cases hfg : decodeFg logn (UInt8.ofNat (0x50 + logn) :: body) with
      | error r =>
        rw [hfg] at hpk
        cases hpk
      | ok p =>
        rw [hfg] at hpk
        dsimp only at hpk
        obtain ⟨bf, bg, rest, hbody, -, hbf, hbg⟩ := (decodeFg_iff hpos hlogn).mp hfg
        cases hcompute : computePublic logn p.1 p.2.1 with
        | none =>
          rw [hcompute] at hpk
          cases hpk
        | some h =>
          rw [hcompute] at hpk
          exact ⟨logn, bf, bg, rest, p.1, p.2.1, h, hpos, hlogn, hsize, by rw [hbody], hbf, hbg,
            by omega, by omega, (publicOf_iff hlogn hbf.1 hbg.1).mpr ⟨hcompute, hpk⟩⟩
  · intro ⟨logn, bf, bg, rest, f, g, h, hpos, hlogn, hsize, hsk, hbf, hbg, hroom, htmp, hpublic⟩
    have hdegree := privkeyDegree_iff.mpr ⟨hpos, hlogn, by rw [hsk]; rfl, hsize⟩
    have hfg := (@decodeFg_iff logn f g hpos hlogn (UInt8.ofNat (0x50 + logn)) _ _).mpr
      ⟨bf, bg, rest, rfl, rfl, hbf, hbg⟩
    obtain ⟨hcompute, hpk⟩ := (publicOf_iff hlogn hbf.1 hbg.1).mp hpublic
    rw [hdegree]
    dsimp only
    rw [if_neg (by omega), hsk, hfg]
    dsimp only
    rw [hcompute]
    exact hpk

/-- What `falcon_keygen_make` writes. -/
theorem keygenMake_iff {privkeyLen pubkeyLen tmpLen : Nat} (hf : f.length = 2 ^ logn)
    (hg : g.length = 2 ^ logn) (hF : F.length = 2 ^ logn) {pk : Bytes} :
    keygenMake logn f g F privkeyLen (some pubkeyLen) tmpLen = .ok (sk, some pk) ↔
      1 ≤ logn ∧ logn ≤ 10 ∧ privkeySizeOf logn ≤ privkeyLen ∧ pubkeySizeOf logn ≤ pubkeyLen ∧
        tmpsizeKeygen logn ≤ tmpLen ∧ EncodesPrivkey logn f g F sk ∧
        ∃ h, PublicOf logn f g pk h := by
  unfold keygenMake
  simp only [Option.any_some, decide_eq_true_eq]
  constructor
  · intro hmake
    split_ifs at hmake with hlogn hroom hsome
    · cases hsk : encodePrivkey logn f g F with
      | error r =>
        rw [hsk] at hmake
        cases hmake
      | ok sk' =>
        rw [hsk] at hmake
        dsimp only at hmake
        cases hcompute : computePublic logn f g with
        | none =>
          rw [hcompute] at hmake
          cases hmake
        | some h =>
          rw [hcompute] at hmake
          dsimp only at hmake
          cases hpk : encodePubkey logn h with
          | error r =>
            rw [hpk] at hmake
            cases hmake
          | ok pk' =>
            rw [hpk] at hmake
            cases hmake
            exact ⟨by omega, by omega, by omega, by omega, by omega,
              (encodePrivkey_iff (by omega) (by omega) hf hg hF).mp hsk, h,
              (publicOf_iff (by omega) hf hg).mpr ⟨hcompute, hpk⟩⟩
    · exact absurd rfl hsome
  · intro ⟨hpos, hlogn, hprivkey, hpubkey, htmp, hsk, h, hpublic⟩
    obtain ⟨hcompute, hpk⟩ := (publicOf_iff hlogn hf hg).mp hpublic
    rw [if_neg (by omega), if_neg (by omega), (encodePrivkey_iff hpos hlogn hf hg hF).mpr hsk]
    dsimp only
    rw [if_pos (show (some pubkeyLen).isSome = true from rfl), hcompute]
    dsimp only
    rw [hpk]
    rfl

/-- The public key of a new pair is the one that its private key gives again. -/
theorem makePublic_of_keygen {privkeyLen pubkeyLen tmpLen pubkeyLen' tmpLen' : Nat}
    (hf : f.length = 2 ^ logn) (hg : g.length = 2 ^ logn) (hF : F.length = 2 ^ logn) {pk : Bytes}
    (hmake : keygenMake logn f g F privkeyLen (some pubkeyLen) tmpLen = .ok (sk, some pk))
    (hroom : pubkeySizeOf logn ≤ pubkeyLen') (htmp : tmpsizeMakepub logn ≤ tmpLen') :
    makePublic sk pubkeyLen' tmpLen' = .ok pk := by
  obtain ⟨hpos, hlogn, -, -, -, hsk, h, hpublic⟩ := (keygenMake_iff hf hg hF).mp hmake
  have hsize := hsk.size hpos hlogn
  obtain ⟨bf, bg, bF, hbytes, hbf, hbg, -⟩ := hsk
  exact makePublic_iff.mpr ⟨logn, bf, bg, bF, f, g, h, hpos, hlogn, hsize, hbytes, hbf, hbg, hroom,
    htmp, hpublic⟩

theorem makePublic_two :
    keygenMake 1 [100, 0] [11, 0] [1, 0] 7 (some 5) 285 =
        .ok ([81, 100, 0, 11, 0, 1, 0], some [1, 1, 236, 0, 0]) ∧
      makePublic [81, 100, 0, 11, 0, 1, 0] 5 13 = .ok [1, 1, 236, 0, 0] :=
  have h : keygenMake 1 [100, 0] [11, 0] [1, 0] 7 (some 5) 285 =
      .ok ([81, 100, 0, 11, 0, 1, 0], some [1, 1, 236, 0, 0]) := by decide +kernel
  ⟨h, makePublic_of_keygen rfl rfl rfl h (by decide) (by decide)⟩

/-- The public key belongs to the elements that the signers read. -/
theorem publicOf_of_makePublic {pubkeyLen tmpLen : Nat} {pk : Bytes}
    (hpk : makePublic sk pubkeyLen tmpLen = .ok pk) (hdegree : privkeyDegree sk = .ok logn)
    (helements : decodeElements logn sk = .ok (f, g, F)) : ∃ h, PublicOf logn f g pk h := by
  obtain ⟨-, hlogn, bf, bg, bF, -, hbf, hbg, -⟩ := decodePrivkey_iff.mp ⟨hdegree, helements⟩
  unfold decodeElements at helements
  unfold makePublic at hpk
  rw [hdegree] at hpk
  dsimp only at hpk
  split_ifs at hpk
  cases hfg : decodeFg logn sk with
  | error r =>
    rw [hfg] at hpk
    cases hpk
  | ok p =>
    rw [hfg] at hpk helements
    dsimp only at hpk helements
    have hsame : (p.1, p.2.1) = (f, g) := by
      cases hF : trimI8Decode logn (maxFGBits.getD logn 0) (sk.drop p.2.2) with
      | none =>
        rw [hF] at helements
        cases helements
      | some r =>
        rw [hF] at helements
        dsimp only at helements
        split_ifs at helements
        cases helements
        rfl
    obtain ⟨hpf, hpg⟩ := Prod.mk.inj hsame
    rw [hpf, hpg] at hpk
    cases hcompute : computePublic logn f g with
    | none =>
      rw [hcompute] at hpk
      cases hpk
    | some h =>
      rw [hcompute] at hpk
      exact ⟨h, (publicOf_iff hlogn hbf.1 hbg.1).mpr ⟨hcompute, hpk⟩⟩

/-! ## Completing a private key -/

/-- `G` completes the key: the equation `f G = g F` of the pair holds modulo `q`. -/
structure Completes (logn : Nat) (f g F G : List Int8) : Prop where
  invertible : Vrfy.Invertible logn (Vrfy.residues f)
  length : G.length = 2 ^ logn
  low : ∀ z ∈ G, -127 ≤ z.toInt
  equation : ∀ k < 2 ^ logn, Vrfy.ringMul logn (Vrfy.residues G) (Vrfy.residues f) k =
    Vrfy.ringMul logn (Vrfy.residues g) (Vrfy.residues F) k

/-- The signers load exactly the encodings of keys that have a small `G`. -/
theorem loadPrivkey_iff {G : List Int8} :
    (privkeyDegree sk = .ok logn ∧ completeElements logn sk = .ok (f, g, F, G)) ↔
      1 ≤ logn ∧ logn ≤ 10 ∧ EncodesPrivkey logn f g F sk ∧ Completes logn f g F G := by
  have hcomplete : EncodesPrivkey logn f g F sk → logn ≤ 10 →
      (completePrivate logn f g F = some G ↔ Completes logn f g F G) := by
    intro ⟨_, _, _, _, hbf, hbg, hbF⟩ hlogn
    rw [Vrfy.completePrivate_iff hlogn hbf.1 hbg.1 hbF.1]
    exact ⟨fun ⟨h1, h2, h3, h4⟩ => ⟨h1, h2, h3, h4⟩, fun ⟨h1, h2, h3, h4⟩ => ⟨h1, h2, h3, h4⟩⟩
  unfold completeElements
  constructor
  · intro ⟨hdegree, h⟩
    cases helements : decodeElements logn sk with
    | error r =>
      rw [helements] at h
      cases h
    | ok p =>
      rw [helements] at h
      dsimp only at h
      obtain ⟨hpos, hlogn, hsk⟩ := decodePrivkey_iff.mp ⟨hdegree, helements⟩
      cases hG : completePrivate logn p.1 p.2.1 p.2.2 with
      | none =>
        rw [hG] at h
        cases h
      | some G' =>
        rw [hG] at h
        cases h
        exact ⟨hpos, hlogn, hsk, (hcomplete hsk hlogn).mp hG⟩
  · intro ⟨hpos, hlogn, hsk, hG⟩
    obtain ⟨hdegree, helements⟩ := decodePrivkey_iff.mpr ⟨hpos, hlogn, hsk⟩
    refine ⟨hdegree, ?_⟩
    rw [helements]
    dsimp only
    rw [(hcomplete hsk hlogn).mpr hG]

/-- The signers read from a new key what went into it, and complete it by the one small `G`
that solves the equation. -/
theorem load_of_keygen {privkeyLen pubkeyLen tmpLen logn' : Nat} {f' g' F' G : List Int8}
    (hf : f.length = 2 ^ logn) (hg : g.length = 2 ^ logn) (hF : F.length = 2 ^ logn) {pk : Bytes}
    (hmake : keygenMake logn f g F privkeyLen (some pubkeyLen) tmpLen = .ok (sk, some pk)) :
    (privkeyDegree sk = .ok logn' ∧ completeElements logn' sk = .ok (f', g', F', G)) ↔
      logn' = logn ∧ (f', g', F') = (f, g, F) ∧ Completes logn f g F G := by
  obtain ⟨hpos, hlogn, -, -, -, hencodes, -⟩ := (keygenMake_iff hf hg hF).mp hmake
  obtain ⟨hdegree, helements⟩ := decodePrivkey_iff.mpr ⟨hpos, hlogn, hencodes⟩
  constructor
  · intro hload
    obtain ⟨hpos', hlogn', hencodes', hcompletes⟩ := loadPrivkey_iff.mp hload
    have hsame : logn' = logn := Except.ok.inj (hload.1.symm.trans hdegree)
    subst hsame
    obtain ⟨-, helements'⟩ := decodePrivkey_iff.mpr ⟨hpos', hlogn', hencodes'⟩
    have hkey : (f', g', F') = (f, g, F) := Except.ok.inj (helements'.symm.trans helements)
    cases hkey
    exact ⟨rfl, rfl, hcompletes⟩
  · intro ⟨hsame, hkey, hcompletes⟩
    subst hsame
    cases hkey
    exact loadPrivkey_iff.mpr ⟨hpos, hlogn, hencodes, hcompletes⟩

theorem load_two :
    (privkeyDegree [81, 100, 0, 11, 0, 1, 0] = .ok 1 ∧
      completeElements 1 [81, 100, 0, 11, 0, 1, 0] = .ok ([100, 0], [11, 0], [1, 0], [123, 0])) ∧
      Completes 1 [100, 0] [11, 0] [1, 0] [123, 0] :=
  have hmake : keygenMake 1 [100, 0] [11, 0] [1, 0] 7 (some 5) 285 =
      .ok ([81, 100, 0, 11, 0, 1, 0], some [1, 1, 236, 0, 0]) := by decide +kernel
  have hload : privkeyDegree [81, 100, 0, 11, 0, 1, 0] = .ok 1 ∧
      completeElements 1 [81, 100, 0, 11, 0, 1, 0] = .ok ([100, 0], [11, 0], [1, 0], [123, 0]) := by
    decide +kernel
  ⟨hload, ((load_of_keygen rfl rfl rfl hmake).mp hload).2.2⟩

/-! ## Errors -/

section Errors

variable {r : Int}

theorem privkeyDegree_error (h : privkeyDegree sk = .error r) : r = errFormat := by
  unfold privkeyDegree at h
  dsimp only at h
  split_ifs at h <;> exact (Except.error.inj h).symm

theorem decodeFg_error (h : decodeFg logn sk = .error r) : r = errFormat := by
  unfold decodeFg at h
  split at h
  · exact (Except.error.inj h).symm
  · split at h
    · exact (Except.error.inj h).symm
    · cases h

theorem decodeElements_error (h : decodeElements logn sk = .error r) : r = errFormat := by
  unfold decodeElements at h
  split at h
  case h_1 r' hfg =>
    cases h
    exact decodeFg_error hfg
  case h_2 =>
    split at h
    · exact (Except.error.inj h).symm
    · split_ifs at h
      exact (Except.error.inj h).symm

theorem completeElements_error (h : completeElements logn sk = .error r) : r = errFormat := by
  unfold completeElements at h
  split at h
  case h_1 r' helements =>
    cases h
    exact decodeElements_error helements
  case h_2 =>
    split at h
    · exact (Except.error.inj h).symm
    · cases h

end Errors

end Trelyan.Falcon.PrivateKey
