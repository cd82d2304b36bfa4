import Trelyan.Lib.Bits

/-!
# Codes over a bit string, and the C loops that read and write them

A `Code` gives some values a codeword, and reads one value off the front of a bit string
exactly when a codeword stands there (`read_eq_some`).  A `Field` is the code of a fixed
width.

`encodeFields` and `decodeFields` are the loops that C codecs run over the accumulator.
The first packs the codewords (`packs_encodeFields`).  The second does to the bytes what
`Code.readMany` does to their bits (`readMany_decodeFields`), so that what it accepts is
read off `Code.readMany_eq_some`.
-/

namespace Trelyan.Bits

/-- Codewords for the valid values, and a reader of one value. -/
structure Code (α : Type) where
  Valid : α → Prop
  code : α → List Bool
  read : List Bool → Option (α × List Bool)
  read_eq_some : ∀ {s c rest}, read s = some (c, rest) ↔ Valid c ∧ s = code c ++ rest

namespace Code

variable {α : Type} (C : Code α)

/-- Read `n` values. -/
def readMany : Nat → List Bool → Option (List α × List Bool)
  | 0, s => some ([], s)
  | n + 1, s =>
    (C.read s).bind fun p => (readMany n p.2).map fun t => (p.1 :: t.1, t.2)

/-- What is read is what is spelled, and only valid values are read. -/
theorem readMany_eq_some {n : Nat} {s rest : List Bool} {x : List α} :
    C.readMany n s = some (x, rest) ↔
      x.length = n ∧ (∀ c ∈ x, C.Valid c) ∧ s = x.flatMap C.code ++ rest := by
  induction n generalizing s x with
  | zero =>
    rw [readMany, Option.some.injEq, Prod.mk.injEq]
    constructor
    · intro ⟨hx, hs⟩
      subst hx
      exact ⟨rfl, by simp, hs⟩
    · intro ⟨hlen, _, hs⟩
      have hx := List.length_eq_zero_iff.mp hlen
      subst hx
      exact ⟨rfl, hs⟩
  | succ n ih =>
    rw [readMany, Option.bind_eq_some_iff]
    constructor
    · intro ⟨⟨c, s'⟩, hread, hmany⟩
      rw [Option.map_eq_some_iff] at hmany
      obtain ⟨⟨y, s''⟩, hy, heq⟩ := hmany
      rw [Prod.mk.injEq] at heq
      obtain ⟨hx, hrest⟩ := heq
      subst hx hrest
      obtain ⟨hc, hs⟩ := C.read_eq_some.mp hread
      obtain ⟨hlen, hvalid, hs'⟩ := ih.mp hy
      refine ⟨by simp [hlen], ?_, ?_⟩
      · intro d hd
        rcases List.mem_cons.mp hd with h | h
        · exact h ▸ hc
        · exact hvalid d h
      · dsimp only at hs'
        rw [hs, hs', List.flatMap_cons, List.append_assoc]
    · intro ⟨hlen, hvalid, hs⟩
      cases x with
      | nil => simp at hlen
      | cons c y =>
        rw [List.flatMap_cons, List.append_assoc] at hs
        refine ⟨(c, y.flatMap C.code ++ rest), ?_, ?_⟩
        · exact C.read_eq_some.mpr ⟨hvalid c (by simp), hs⟩
        · rw [Option.map_eq_some_iff]
          refine ⟨(y, rest), ih.mpr ⟨by simpa using hlen, ?_, rfl⟩, rfl⟩
          intro d hd
          exact hvalid d (by simp [hd])

end Code

/-! ## Fields of a fixed width -/

/-- Values that are written as words of `bits` bits. -/
structure Field (bits : Nat) (α : Type) where
  Valid : α → Prop
  word : α → UInt32
  read : UInt32 → Option α
  word_lt : ∀ {c}, Valid c → (word c).toNat < 2 ^ bits
  read_eq_some : ∀ {w c}, w.toNat < 2 ^ bits → (read w = some c ↔ Valid c ∧ word c = w)

namespace Field

variable {bits : Nat} {α : Type} (F : Field bits α)

/-- The bits of a value. -/
def bitsOf (c : α) : List Bool := ofNat bits (F.word c).toNat

@[simp] theorem length_bitsOf (c : α) : (F.bitsOf c).length = bits := length_ofNat _ _

theorem length_flatMap_bitsOf (x : List α) : (x.flatMap F.bitsOf).length = x.length * bits := by
  rw [List.length_flatMap, List.map_congr_left fun c _ => F.length_bitsOf c, List.map_const',
    List.sum_replicate_nat]

/-- Read a word off the front. -/
def readBits (s : List Bool) : Option (α × List Bool) :=
  if s.length < bits then none
  else (F.read (UInt32.ofNat (toNat (s.take bits)))).map fun c => (c, s.drop bits)

theorem readBits_append {w : UInt32} {s : List Bool} (hw : w.toNat < 2 ^ bits) :
    F.readBits (ofNat bits w.toNat ++ s) = (F.read w).map fun c => (c, s) := by
  have hlen := length_ofNat bits w.toNat
  unfold readBits
  rw [if_neg (by simp), List.take_left' hlen, List.drop_left' hlen, toNat_ofNat,
    Nat.mod_eq_of_lt hw, UInt32.ofNat_toNat]

/-- The code with these codewords. -/
def toCode (hbits : bits ≤ 32) : Code α where
  Valid := F.Valid
  code := F.bitsOf
  read := F.readBits
  read_eq_some := by
    intro s c rest
    constructor
    · intro h
      by_cases hlen : s.length < bits
      · rw [readBits, if_pos hlen] at h
        cases h
      · have htake : (s.take bits).length = bits := by
          rw [List.length_take]
          omega
        have hlt := toNat_lt (s.take bits)
        rw [htake] at hlt
        have hword : (UInt32.ofNat (toNat (s.take bits))).toNat = toNat (s.take bits) := by
          rw [UInt32.toNat_ofNat']
          exact Nat.mod_eq_of_lt (lt_of_lt_of_le hlt (Nat.pow_le_pow_right (by omega) hbits))
        rw [readBits, if_neg hlen, Option.map_eq_some_iff] at h
        obtain ⟨d, hd, heq⟩ := h
        rw [Prod.mk.injEq] at heq
        obtain ⟨hc, hrest⟩ := heq
        subst hc hrest
        rw [F.read_eq_some (by rw [hword]; exact hlt)] at hd
        refine ⟨hd.1, ?_⟩
        have hbitsOf : F.bitsOf d = s.take bits := by
          have h := ofNat_toNat (s.take bits)
          rw [htake] at h
          rw [bitsOf, hd.2, hword, h]
        rw [hbitsOf, List.take_append_drop]
    · intro ⟨hvalid, hs⟩
      rw [hs, bitsOf, readBits_append F (F.word_lt hvalid),
        (F.read_eq_some (F.word_lt hvalid)).mpr ⟨hvalid, rfl⟩]
      rfl

end Field

/-! ## Writing fields -/

/-- `for (u = 0; u < n; u ++) { push x[u]; drain }`, and the flush after the loop. -/
def encodeFields (bits : Nat) : Acc → List UInt32 → Bytes
  | a, [] => a.flush
  | a, w :: x =>
    let a := a.push bits w
    let (bs, accLen) := Acc.drain a.acc a.accLen
    bs ++ encodeFields bits ⟨a.acc, accLen⟩ x

theorem packs_encodeFields {bits : Nat} (hbits : bits ≤ 24) {x : List UInt32} {a : Acc}
    (ha : a.accLen < 8) (hx : ∀ w ∈ x, w.toNat < 2 ^ bits) :
    Packs (encodeFields bits a x) (a.pending ++ x.flatMap fun w => ofNat bits w.toNat) := by
  induction x generalizing a with
  | nil => simpa [encodeFields] using Acc.packs_flush ha
  | cons w x ih =>
    have hpush : (a.push bits w).pending = a.pending ++ ofNat bits w.toNat :=
      Acc.pending_push (hx w (by simp)) (by omega) (by omega)
    obtain ⟨hleft, hdrain⟩ := @Acc.drain_spec (a.push bits w).acc (a.push bits w).accLen
      (by rw [Acc.push_accLen]; omega)
    have hrest := ih (a := ⟨(a.push bits w).acc, (Acc.drain (a.push bits w).acc
      (a.push bits w).accLen).2⟩) hleft fun v hv => hx v (by simp [hv])
    have hbits' : a.pending ++ (w :: x).flatMap (fun w => ofNat bits w.toNat) =
        ofBytes (Acc.drain (a.push bits w).acc (a.push bits w).accLen).1 ++
          (Acc.pending ⟨(a.push bits w).acc, (Acc.drain (a.push bits w).acc
            (a.push bits w).accLen).2⟩ ++ x.flatMap fun w => ofNat bits w.toNat) := by
      rw [List.flatMap_cons, ← List.append_assoc, ← hpush, ← List.append_assoc]
      congr 1
    rw [encodeFields, hbits']
    exact hrest.append

/-- The codewords of valid values. -/
theorem Field.packs_encode {bits : Nat} {α : Type} (F : Field bits α) (hbits : bits ≤ 24)
    {x : List α} (hx : ∀ c ∈ x, F.Valid c) :
    Packs (encodeFields bits .empty (x.map F.word)) (x.flatMap F.bitsOf) := by
  have h := @packs_encodeFields bits hbits (x.map F.word) .empty (by show 0 < 8; omega) ?_
  · rw [List.flatMap_map] at h
    exact h
  · intro w hw
    obtain ⟨c, hc, hcw⟩ := List.mem_map.mp hw
    rw [← hcw]
    exact F.word_lt (hx c hc)

/-! ## Reading fields -/

variable {bits : Nat} {α : Type}

/-- `while (acc_len >= bits && u < n) { .. }`, with `n - u` values to go. -/
def takeFields (bits : Nat) (read : UInt32 → Option α) : Nat → Acc → Option (List α × Acc)
  | 0, a => some ([], a)
  | r + 1, a =>
    if a.accLen ≥ bits then
      (read (a.pop bits).2).bind fun c =>
        (takeFields bits read r (a.pop bits).1).map fun t => (c :: t.1, t.2)
    else some ([], a)

/-- `while (u < n) { acc = (acc << 8) | *buf ++; acc_len += 8; .. }`, with `n - u` values to
go: the values, the accumulator and the bytes not read. -/
def decodeFields (bits : Nat) (read : UInt32 → Option α) :
    Nat → Acc → Bytes → Option (List α × Acc × Bytes)
  | 0, a, buf => some ([], a, buf)
  | _ + 1, _, [] => none
  | r + 1, a, b :: buf =>
    (takeFields bits read (r + 1) (a.push 8 b.toUInt32)).bind fun t =>
      (decodeFields bits read (r + 1 - t.1.length) t.2 buf).map fun u => (t.1 ++ u.1, u.2)

/-- The loop over the whole input, and the check on the bits that it leaves. -/
def decodeChecked (bits : Nat) (read : UInt32 → Option α) (n : Nat) (buf : Bytes) :
    Option (List α) :=
  (decodeFields bits read n .empty buf).bind fun t =>
    if t.2.1.leftover ≠ 0 then none else some t.1

variable {read : UInt32 → Option α} {F : Field bits α}

/-- After the inner loop either every value has been read, or less than a field is left. -/
theorem takeFields_spec {r : Nat} {a a' : Acc} {x : List α}
    (h : takeFields bits read r a = some (x, a')) :
    x.length ≤ r ∧ a'.accLen + bits * x.length = a.accLen ∧
      (x.length = r ∨ a'.accLen < bits) := by
  induction r generalizing a x with
  | zero =>
    rw [takeFields, Option.some.injEq, Prod.mk.injEq] at h
    obtain ⟨hx, ha⟩ := h
    subst hx ha
    simp
  | succ r ih =>
    rw [takeFields] at h
    split_ifs at h with hlen
    · rw [Option.bind_eq_some_iff] at h
      obtain ⟨c, _, h⟩ := h
      rw [Option.map_eq_some_iff] at h
      obtain ⟨⟨y, a''⟩, hy, heq⟩ := h
      rw [Prod.mk.injEq] at heq
      obtain ⟨hx, ha⟩ := heq
      dsimp only at hx ha
      subst hx ha
      obtain ⟨hle, hsum, hend⟩ := ih hy
      rw [Acc.pop_accLen] at hsum
      rw [List.length_cons, Nat.mul_succ]
      exact ⟨by omega, by omega, by omega⟩
    · rw [Option.some.injEq, Prod.mk.injEq] at h
      obtain ⟨hx, ha⟩ := h
      subst hx ha
      exact ⟨by simp, by simp, Or.inr (by omega)⟩

/-- The inner loop reads the front of the bit string. -/
theorem readMany_takeFields (hbits : bits < 32) {r : Nat} {a : Acc} (ha : a.accLen < 32)
    (s : List Bool) :
    (F.toCode hbits.le).readMany r (a.pending ++ s) =
      (takeFields bits F.read r a).bind fun t =>
        ((F.toCode hbits.le).readMany (r - t.1.length) (t.2.pending ++ s)).map
          fun u => (t.1 ++ u.1, u.2) := by
  induction r generalizing a with
  | zero => simp [takeFields, Code.readMany]
  | succ r ih =>
    by_cases hlen : a.accLen ≥ bits
    · have hpop := Acc.pending_pop hbits ha hlen
      have hread : (F.toCode hbits.le).read (a.pending ++ s) =
          (F.read (a.pop bits).2).map fun c => (c, (a.pop bits).1.pending ++ s) := by
        rw [hpop, List.append_assoc]
        exact Field.readBits_append F (Acc.pop_lt hbits ha)
      rw [takeFields, if_pos hlen, Code.readMany, hread]
      cases F.read (a.pop bits).2 with
      | none => rfl
      | some c =>
        have hrest := @ih (a.pop bits).1 (by rw [Acc.pop_accLen]; omega)
        simp only [Option.map_some, Option.bind_some, hrest]
        cases takeFields bits F.read r (a.pop bits).1 with
        | none => rfl
        | some t =>
          simp only [Option.bind_some, Option.map_some, List.length_cons, Nat.add_sub_add_right,
            Option.map_map]
          rfl
    · rw [takeFields, if_neg hlen]
      simp

/-- The outer loop reads the bytes as the bit string of their bits. -/
theorem readMany_decodeFields (hbits : bits ≤ 24) {r : Nat} {a : Acc} {buf : Bytes}
    (ha : r = 0 ∨ a.accLen < bits) :
    (F.toCode (by omega)).readMany r (a.pending ++ ofBytes buf) =
      (decodeFields bits F.read r a buf).map fun t => (t.1, t.2.1.pending ++ ofBytes t.2.2) := by
  induction buf generalizing r a with
  | nil =>
    cases r with
    | zero => simp [decodeFields, Code.readMany]
    | succ r =>
      have hshort : (F.toCode (by omega)).read (a.pending ++ ofBytes []) = none := by
        show F.readBits _ = none
        unfold Field.readBits
        rw [if_pos (by simp; omega)]
      rw [Code.readMany, hshort]
      rfl
  | cons b buf ih =>
    cases r with
    | zero => simp [decodeFields, Code.readMany]
    | succ r =>
      have hload := @Acc.pending_push_byte b a (by omega)
      rw [ofBytes_cons, ← List.append_assoc, ← hload,
        readMany_takeFields (by omega) (by rw [Acc.push_accLen]; omega), decodeFields]
      cases htake : takeFields bits F.read (r + 1) (a.push 8 b.toUInt32) with
      | none => rfl
      | some t =>
        obtain ⟨_, _, hend⟩ := takeFields_spec htake
        simp only [Option.bind_some]
        rw [ih (by omega), Option.map_map, Option.map_map]
        rfl

/-- When the last value has been read, less than a byte is left in the accumulator. -/
theorem decodeFields_accLen {r : Nat} {a a' : Acc} {x : List α} {buf rest : Bytes}
    (ha : a.accLen < bits) (hr : 0 < r)
    (h : decodeFields bits read r a buf = some (x, a', rest)) : a'.accLen < 8 := by
  induction buf generalizing r a x with
  | nil =>
    cases r with
    | zero => omega
    | succ r => cases h
  | cons b buf ih =>
    cases r with
    | zero => omega
    | succ r =>
      rw [decodeFields, Option.bind_eq_some_iff] at h
      obtain ⟨⟨y, a''⟩, htake, h⟩ := h
      rw [Option.map_eq_some_iff] at h
      obtain ⟨⟨z, u⟩, hz, heq⟩ := h
      rw [Prod.mk.injEq] at heq
      obtain ⟨_, hu⟩ := heq
      dsimp only at hu hz
      subst hu
      obtain ⟨hle, hsum, hend⟩ := takeFields_spec htake
      rw [Acc.push_accLen] at hsum
      by_cases hdone : y.length = r + 1
      · rw [hdone, Nat.sub_self, decodeFields, Option.some.injEq, Prod.mk.injEq,
          Prod.mk.injEq] at hz
        obtain ⟨_, haccu, _⟩ := hz
        subst haccu
        have hmul : bits ≤ bits * y.length := Nat.le_mul_of_pos_right bits (by omega)
        omega
      · exact ih (by omega) (by omega) hz

/-! ## The check on the last byte -/

/-- A reader that leaves no set bit behind has read packed bits. -/
theorem packs_of_leftover {a : Acc} {bits : List Bool} {input rest : Bytes} (ha : a.accLen < 8)
    (hleft : a.leftover = 0) (h : ofBytes input = bits ++ (a.pending ++ ofBytes rest)) :
    Packs (input.take (input.length - rest.length)) bits := by
  have hlens := congrArg List.length h
  simp only [List.length_append, length_ofBytes, Acc.length_pending] at hlens
  rw [(Acc.leftover_eq_zero (by omega)).mp hleft, ← List.append_assoc] at h
  refine ⟨a.accLen, ha, ?_⟩
  rw [← List.take_append_drop (input.length - rest.length) input, ofBytes_append] at h
  refine (List.append_inj h ?_).1
  rw [length_ofBytes, List.length_append, List.length_replicate, List.length_take]
  omega

/-- A reader of packed bits leaves no set bit behind, and has read their bytes. -/
theorem leftover_of_packs {a : Acc} {bits : List Bool} {input rest : Bytes} {v : Nat}
    (ha : a.accLen < 8) (hv : v ≤ input.length) (hpacks : Packs (input.take v) bits)
    (h : ofBytes input = bits ++ (a.pending ++ ofBytes rest)) :
    a.leftover = 0 ∧ input.length - rest.length = v := by
  obtain ⟨pad, hpad, heq⟩ := hpacks
  have hcut : ofBytes input = bits ++ (List.replicate pad false ++ ofBytes (input.drop v)) := by
    rw [← List.append_assoc, ← heq, ← ofBytes_append, List.take_append_drop]
  have hstream := List.append_cancel_left (h.symm.trans hcut)
  have hlens := congrArg List.length hstream
  simp only [List.length_append, length_ofBytes, Acc.length_pending, List.length_replicate,
    List.length_drop] at hlens
  have hpadLen : a.accLen = pad := by omega
  rw [Acc.leftover_eq_zero (by omega), hpadLen]
  exact ⟨(List.append_inj hstream (by simp [hpadLen])).1, by omega⟩

/-- The decoder accepts the packed codewords of `n` valid values, and reads these values. -/
theorem decodeChecked_eq_some (hpos : 0 < bits) (hbits : bits ≤ 24) {n : Nat} (hn : 0 < n)
    {buf : Bytes} (hbuf : (n * bits + 7) / 8 ≤ buf.length) {x : List α} :
    decodeChecked bits F.read n buf = some x ↔
      x.length = n ∧ (∀ c ∈ x, F.Valid c) ∧
        Packs (buf.take ((n * bits + 7) / 8)) (x.flatMap F.bitsOf) := by
  have hempty : Acc.empty.accLen < bits := hpos
  have hsim := @readMany_decodeFields bits α F hbits n .empty buf (Or.inr hempty)
  rw [Acc.pending_empty, List.nil_append] at hsim
  have hwidth := F.length_flatMap_bitsOf
  unfold decodeChecked
  rw [Option.bind_eq_some_iff]
  constructor
  · intro ⟨⟨y, a, rest⟩, hdecode, hcheck⟩
    dsimp only at hcheck
    split_ifs at hcheck with hleft
    rw [Option.some.injEq] at hcheck
    subst hcheck
    have haccLen := decodeFields_accLen hempty hn hdecode
    rw [hdecode] at hsim
    obtain ⟨hlen, hvalid, hstream⟩ := (Code.readMany_eq_some _).mp hsim
    have hpacks := packs_of_leftover haccLen (not_not.mp hleft) hstream
    have hread : buf.length - rest.length = (n * bits + 7) / 8 := by
      have h := hpacks.length
      rw [List.length_take_of_le (by omega)] at h
      rw [h, ← hlen]
      exact congrArg (fun k => (k + 7) / 8) (hwidth y)
    rw [hread] at hpacks
    exact ⟨hlen, hvalid, hpacks⟩
  · intro ⟨hlen, hvalid, hpacks⟩
    have hread : ∃ s, (F.toCode (by omega)).readMany n (ofBytes buf) = some (x, s) := by
      obtain ⟨pad, _, heq⟩ := hpacks
      refine ⟨List.replicate pad false ++ ofBytes (buf.drop ((n * bits + 7) / 8)),
        (Code.readMany_eq_some _).mpr ⟨hlen, hvalid, ?_⟩⟩
      rw [← List.append_assoc]
      refine Eq.trans ?_ (congrArg (· ++ _) heq)
      rw [← ofBytes_append, List.take_append_drop]
    obtain ⟨s, hs⟩ := hread
    have hstream := ((Code.readMany_eq_some _).mp hs).2.2
    rw [hs] at hsim
    obtain ⟨⟨y, a, rest⟩, hdecode, heq⟩ := Option.map_eq_some_iff.mp hsim.symm
    rw [Prod.mk.injEq] at heq
    obtain ⟨hxy, hrest⟩ := heq
    dsimp only at hxy hrest
    subst hxy hrest
    obtain ⟨hleft, _⟩ := leftover_of_packs (decodeFields_accLen hempty hn hdecode) hbuf hpacks
      hstream
    refine ⟨(y, a, rest), hdecode, ?_⟩
    dsimp only
    rw [if_neg (not_not.mpr hleft)]

/-! ## Round trips -/

/-- `out` is what the encoder writes, in front of the rest of the input, if the buffer has room
for it. -/
def Fronts (enc : Nat → Option Bytes) (input : Bytes) (len : Nat) : Prop :=
  ∃ out rest, input = out ++ rest ∧ out.length = len ∧
    ∀ maxOutLen, enc maxOutLen = if len ≤ maxOutLen then some out else none

theorem fronts_iff {e : Nat → Option Bytes} {valid : Prop} {bits : List Bool}
    (hiff : ∀ n out, e n = some out ↔ valid ∧ out.length ≤ n ∧ Packs out bits) {input : Bytes}
    {len : Nat} :
    Fronts e input len ↔ len ≤ input.length ∧ e len = some (input.take len) := by
  constructor
  · intro ⟨out, rest, hinput, hlen, henc⟩
    subst hinput hlen
    rw [henc, if_pos (le_refl _), List.take_left' rfl, List.length_append]
    exact ⟨Nat.le_add_right _ _, rfl⟩
  · intro ⟨hle, henc⟩
    have hlen : (input.take len).length = len := by
      rw [List.length_take]
      omega
    refine ⟨input.take len, input.drop len, (List.take_append_drop _ _).symm, hlen, ?_⟩
    have heq := Packs.encoder_eq hiff henc
    rwa [hlen] at heq

end Trelyan.Bits
