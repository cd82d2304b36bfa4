import Mathlib.Algebra.Order.Ring.Int
import Mathlib.Data.Nat.Bitwise
import Trelyan.Lib.BitCode

/-!
# The compressed signature format of `codec.c`

A coefficient of absolute value `m` at most 2047 is written as its sign bit, the low seven
bits of `m`, and `m / 128` zeros and a one.  `comp_encode` and `comp_decode` do this over a
32-bit accumulator.

`compCode` is the format.  `compDecodeCoeff` follows its reader (`read_compDecodeCoeff`), so
that `comp_decode` accepts what `comp_encode` writes and nothing else (`compDecode_iff`):
neither a second zero, nor a set bit in the padding, nor a longer unary part.
-/

namespace Trelyan.Falcon.Codec

open Bits

/-! ## `comp_encode` -/

/-- One coefficient: the sign, the low seven bits, zeros and a one. -/
def compPush (c : Int16) (a : Acc) : Acc :=
  let t := c.toInt
  let a := if t < 0 then a.push 1 1 else a.push 1 0
  let w : UInt32 := UInt32.ofNat t.natAbs
  let a := a.push 7 (w &&& 127)
  a.push ((w >>> 7).toNat + 1) 1

/-- `if (v >= max_out_len) return 0; buf[v ++] = ..`. -/
def putByte (maxOutLen : Nat) (out : Bytes) (b : UInt8) : Option Bytes :=
  if out.length ≥ maxOutLen then none else some (out ++ [b])

/-- `while (acc_len >= 8) { .. }`, into the bytes written so far. -/
def compDrain (maxOutLen : Nat) (acc : UInt32) : Nat → Bytes → Option (Bytes × Nat)
  | accLen + 8, out =>
    (putByte maxOutLen out (acc >>> UInt32.ofNat accLen).toUInt8).bind
      (compDrain maxOutLen acc accLen)
  | accLen, out => some (out, accLen)

/-- The main loop, and the flush after it. -/
def compLoop (maxOutLen : Nat) : Acc → Bytes → List Int16 → Option Bytes
  | a, out, [] =>
    if a.accLen > 0 then
      putByte maxOutLen out (a.acc <<< UInt32.ofNat (8 - a.accLen)).toUInt8
    else some out
  | a, out, c :: x =>
    let a := compPush c a
    (compDrain maxOutLen a.acc a.accLen out).bind fun t =>
      compLoop maxOutLen ⟨a.acc, t.2⟩ t.1 x

/-- `Zf(comp_encode)`: `none` for the size 0. -/
def compEncode (maxOutLen : Nat) (x : List Int16) : Option Bytes :=
  if x.any (fun c => c.toInt < -2047 || c.toInt > 2047) then none
  else compLoop maxOutLen .empty [] x

/-! ## `comp_decode` -/

/-- `if (acc_len == 0) { .. acc_len = 8; } acc_len --; ((acc >> acc_len) & 1)`. -/
def compBit (a : Acc) (buf : Bytes) : Option (UInt32 × Acc × Bytes) :=
  if a.accLen = 0 then
    match buf with
    | [] => none
    | b :: buf =>
      let a := (⟨(a.acc <<< 8) ||| b.toUInt32, 8⟩ : Acc).pop 1
      some (a.2, a.1, buf)
  else
    let a := a.pop 1
    some (a.2, a.1, buf)

/-- The zeros before the next one, 128 for each. -/
def compUnary : Nat → UInt32 → Acc → Bytes → Option (UInt32 × Acc × Bytes)
  | 0, _, _, _ => none
  | fuel + 1, m, a, buf =>
    (compBit a buf).bind fun t =>
      if t.1 ≠ 0 then some (m, t.2)
      else
        let m := m + 128
        if m > 2047 then none else compUnary fuel m t.2.1 t.2.2

/-- The coefficient with the sign bit `s` and the absolute value `m`; "-0" is forbidden. -/
def compValue (s m : UInt32) : Option Int16 :=
  if s ≠ 0 ∧ m = 0 then none
  else some (Int16.ofInt (if s ≠ 0 then -(m.toNat : Int) else m.toNat))

/-- One coefficient.  After sixteen zeros `m` is over 2047, whatever it was. -/
def compDecodeCoeff (a : Acc) (buf : Bytes) : Option (Int16 × Acc × Bytes) :=
  match buf with
  | [] => none
  | b :: buf =>
    let acc := (a.acc <<< 8) ||| b.toUInt32
    let w := acc >>> UInt32.ofNat a.accLen
    let s := w &&& 128
    let m := w &&& 127
    (compUnary 16 m ⟨acc, a.accLen⟩ buf).bind fun t =>
      (compValue s t.1).map fun c => (c, t.2)

/-- The loop over the coefficients. -/
def compCoeffs : Nat → Acc → Bytes → Option (List Int16 × Acc × Bytes)
  | 0, a, buf => some ([], a, buf)
  | r + 1, a, buf =>
    (compDecodeCoeff a buf).bind fun t =>
      (compCoeffs r t.2.1 t.2.2).map fun u => (t.1 :: u.1, u.2)

/-- `Zf(comp_decode)`: the coefficients, and the number of bytes read. -/
def compDecode (logn : Nat) (input : Bytes) : Option (List Int16 × Nat) :=
  (compCoeffs (2 ^ logn) .empty input).bind fun t =>
    if t.2.1.leftover ≠ 0 then none else some (t.1, input.length - t.2.2.length)

/-! ## The format -/

/-- The zeros before the first one. -/
def countZeros : List Bool → Option (Nat × List Bool)
  | [] => none
  | true :: s => some (0, s)
  | false :: s => (countZeros s).map fun t => (t.1 + 1, t.2)

theorem countZeros_eq_some {s rest : List Bool} {z : Nat} :
    countZeros s = some (z, rest) ↔ s = List.replicate z false ++ true :: rest := by
  induction s generalizing z with
  | nil => simp [countZeros]
  | cons b s ih =>
    cases b with
    | true => cases z <;> simp [countZeros, List.replicate_succ]
    | false =>
      cases z with
      | zero => simp [countZeros]
      | succ z => simp [countZeros, List.replicate_succ, ih]

/-- The sign, seven bits, zeros and a one. -/
def compBits (c : Int16) : List Bool :=
  decide (c.toInt < 0) :: (ofNat 7 c.toInt.natAbs ++
    (List.replicate (c.toInt.natAbs / 128) false ++ [true]))

/-- The value with a sign and an absolute value. -/
def signed (s : Bool) (m : Nat) : Int16 := Int16.ofInt (if s then -(m : Int) else m)

theorem toInt_signed {s : Bool} {m : Nat} (hm : m ≤ 2047) :
    (signed s m).toInt = if s then -(m : Int) else m := by
  unfold signed
  rw [Int16.toInt_ofInt]
  exact Int.bmod_eq_of_le (by rw [Int16.size]; split_ifs <;> omega)
    (by rw [Int16.size]; split_ifs <;> omega)

/-- There is no second zero. -/
def signedOrNone (s : Bool) (m : Nat) : Option Int16 :=
  if s ∧ m = 0 then none else some (signed s m)

theorem compValue_eq {w m : UInt32} :
    compValue (w &&& 128) m = signedOrNone (w.toNat.testBit 7) m.toNat := by
  have hs : (w &&& 128 ≠ 0) ↔ w.toNat.testBit 7 = true := by
    rw [ne_eq, ← UInt32.toNat_inj, UInt32.toNat_and]
    show ¬ w.toNat &&& 2 ^ 7 = 0 ↔ _
    rw [Nat.and_two_pow]
    cases w.toNat.testBit 7 <;> simp
  have hm : m = 0 ↔ m.toNat = 0 := UInt32.toNat_inj.symm
  unfold compValue signedOrNone signed
  simp only [hs, hm]

/-- Read a coefficient: nothing above 2047. -/
def readComp : List Bool → Option (Int16 × List Bool)
  | [] => none
  | s :: t =>
    if t.length < 7 then none
    else
      (countZeros (t.drop 7)).bind fun u =>
        let m := toNat (t.take 7) + 128 * u.1
        if m > 2047 then none else (signedOrNone s m).map fun c => (c, u.2)

/-- A coefficient that is read stands there as its codeword. -/
theorem readComp_sound {s rest : List Bool} {c : Int16} (h : readComp s = some (c, rest)) :
    (-2047 ≤ c.toInt ∧ c.toInt ≤ 2047) ∧ s = compBits c ++ rest := by
  cases s with
  | nil => cases h
  | cons s t =>
    rw [readComp] at h
    split_ifs at h with hlen
    rw [Option.bind_eq_some_iff] at h
    obtain ⟨⟨z, u⟩, hz, h⟩ := h
    have ht := countZeros_eq_some.mp hz
    have htake : (t.take 7).length = 7 := by
      rw [List.length_take]
      omega
    have hlow := toNat_lt (t.take 7)
    rw [htake] at hlow
    dsimp only at h
    split_ifs at h with hbig
    rw [Option.map_eq_some_iff] at h
    obtain ⟨d, hd, heq⟩ := h
    rw [Prod.mk.injEq] at heq
    obtain ⟨hdc, hu⟩ := heq
    subst hdc hu
    rw [signedOrNone] at hd
    split_ifs at hd with hbad
    rw [Option.some.injEq] at hd
    have hto := toInt_signed (s := s) (m := toNat (t.take 7) + 128 * z) (by omega)
    rw [hd] at hto
    have habs : d.toInt.natAbs = toNat (t.take 7) + 128 * z := by
      rw [hto]
      split_ifs <;> omega
    have hsign : decide (d.toInt < 0) = s := by
      rw [hto]
      cases s with
      | false =>
        simp only [Bool.false_eq_true, if_false, decide_eq_false_iff_not]
        omega
      | true =>
        have hne : ¬ toNat (t.take 7) + 128 * z = 0 := fun h0 => hbad ⟨rfl, h0⟩
        simp only [if_true, decide_eq_true_iff]
        omega
    have hfield : ofNat 7 d.toInt.natAbs = t.take 7 := by
      have hback := ofNat_toNat (t.take 7)
      rw [htake] at hback
      rw [habs, ← hback, ofNat_eq_iff_mod, hback]
      omega
    refine ⟨by rw [hto]; split_ifs <;> omega, ?_⟩
    rw [compBits, hsign, hfield, show d.toInt.natAbs / 128 = z by omega, List.cons_append,
      List.append_assoc, List.append_assoc, List.singleton_append, ← ht, List.take_append_drop]

/-- A codeword at the front is read. -/
theorem readComp_append {c : Int16} (hlo : -2047 ≤ c.toInt) (hhi : c.toInt ≤ 2047)
    (rest : List Bool) : readComp (compBits c ++ rest) = some (c, rest) := by
  have h7 := length_ofNat 7 c.toInt.natAbs
  have hzeros := countZeros_eq_some.mpr
    (rfl : List.replicate (c.toInt.natAbs / 128) false ++ true :: rest = _)
  have hsum : toNat (ofNat 7 c.toInt.natAbs) + 128 * (c.toInt.natAbs / 128) =
      c.toInt.natAbs := by
    rw [toNat_ofNat]
    omega
  have hback : signed (decide (c.toInt < 0)) c.toInt.natAbs = c := by
    apply Int16.toInt_inj.mp
    rw [toInt_signed (by omega)]
    by_cases hneg : c.toInt < 0
    · rw [decide_eq_true hneg, if_pos rfl]
      omega
    · rw [decide_eq_false hneg, if_neg (by simp)]
      omega
  rw [compBits, List.cons_append, List.append_assoc, List.append_assoc, List.singleton_append,
    readComp, if_neg (by simp), List.take_left' h7, List.drop_left' h7, hzeros,
    Option.bind_some]
  dsimp only
  rw [hsum, if_neg (by omega), signedOrNone, hback, if_neg]
  · rfl
  · rw [decide_eq_true_iff]
    omega

/-- The compressed format. -/
def compCode : Code Int16 where
  Valid c := -2047 ≤ c.toInt ∧ c.toInt ≤ 2047
  code := compBits
  read := readComp
  read_eq_some := by
    intro s c rest
    constructor
    · exact readComp_sound
    · intro ⟨hvalid, hs⟩
      rw [hs]
      exact readComp_append hvalid.1 hvalid.2 rest

/-! ## The reader -/

/-- The bits that a reader has in front of it. -/
def stream (a : Acc) (buf : Bytes) : List Bool := a.pending ++ ofBytes buf

theorem length_stream (a : Acc) (buf : Bytes) :
    (stream a buf).length = a.accLen + 8 * buf.length := by
  rw [stream, List.length_append, Acc.length_pending, length_ofBytes]

/-- A byte in front of the pending bits. -/
theorem stream_load {a : Acc} {b : UInt8} {buf : Bytes} (ha : a.accLen < 8) :
    stream a (b :: buf) = stream (a.push 8 b.toUInt32) buf := by
  rw [stream, stream, ofBytes_cons, ← List.append_assoc, Acc.pending_push_byte (by omega)]

/-- `compBit` reads the next bit. -/
theorem compBit_spec {a : Acc} {buf : Bytes} (ha : a.accLen < 8) :
    (compBit a buf = none ∧ stream a buf = []) ∨
      ∃ w a' buf', compBit a buf = some (w, a', buf') ∧ a'.accLen < 8 ∧
        stream a buf = decide (w ≠ 0) :: stream a' buf' := by
  have hpop : ∀ a : Acc, 0 < a.accLen → a.accLen < 32 → ∀ buf,
      stream a buf = decide ((a.pop 1).2 ≠ 0) :: stream (a.pop 1).1 buf := by
    intro a hpos hlt buf
    have hbit : ofNat 1 (a.pop 1).2.toNat = [decide ((a.pop 1).2 ≠ 0)] := by
      have hsmall := Acc.pop_lt (k := 1) (by omega) hlt
      have hiff : (a.pop 1).2.toNat = 0 ↔ (a.pop 1).2 = 0 := UInt32.toNat_inj (b := 0)
      show [(a.pop 1).2.toNat.testBit 0] = _
      rw [Nat.testBit_zero]
      by_cases hzero : (a.pop 1).2.toNat = 0
      · simp [hiff.mp hzero]
      · have hone : (a.pop 1).2.toNat = 1 := by omega
        simp [hone, mt hiff.mpr hzero]
    rw [stream, Acc.pending_pop (by omega) hlt hpos, hbit]
    rfl
  unfold compBit
  by_cases hzero : a.accLen = 0
  · rw [if_pos hzero]
    cases buf with
    | nil => exact Or.inl ⟨rfl, List.length_eq_zero_iff.mp (by rw [length_stream, hzero]; rfl)⟩
    | cons b buf =>
      have hload : a.push 8 b.toUInt32 = ⟨(a.acc <<< 8) ||| b.toUInt32, 8⟩ := by
        unfold Acc.push
        rw [hzero]
        rfl
      refine Or.inr ⟨_, _, _, rfl, by show 8 - 1 < 8; omega, ?_⟩
      rw [stream_load ha, hload]
      exact hpop _ (by show 0 < 8; omega) (by show 8 < 32; omega) buf
  · rw [if_neg hzero]
    refine Or.inr ⟨_, _, _, rfl, by rw [Acc.pop_accLen]; omega, ?_⟩
    exact hpop a (by omega) (by omega) buf

/-- What a reader leaves, as a bit string. -/
def streamed {α : Type} (t : α × Acc × Bytes) : α × List Bool := (t.1, stream t.2.1 t.2.2)

/-- `compUnary` counts the zeros, up to 2047.  With `m` below 128 at the start, the last
zero that it reads puts `m` over 2047, so that `fuel` never runs out. -/
theorem compUnary_spec {fuel : Nat} {m : UInt32} {a : Acc} {buf : Bytes} (ha : a.accLen < 8)
    (hm : m.toNat ≤ 2047) (hfuel : 2048 ≤ m.toNat + 128 * fuel) :
    ((compUnary fuel m a buf).map fun t => (t.1.toNat, stream t.2.1 t.2.2)) =
        ((countZeros (stream a buf)).bind fun u =>
          if m.toNat + 128 * u.1 > 2047 then none else some (m.toNat + 128 * u.1, u.2)) ∧
      ∀ t, compUnary fuel m a buf = some t → t.2.1.accLen < 8 := by
  induction fuel generalizing m a buf with
  | zero => omega
  | succ fuel ih =>
    rw [compUnary]
    rcases compBit_spec ha with ⟨hnone, hempty⟩ | ⟨w, a', buf', hbit, ha', hstream⟩
    · rw [hnone, hempty]
      exact ⟨rfl, fun t ht => by cases ht⟩
    · rw [hbit, hstream, Option.bind_some]
      dsimp only
      by_cases hw : w ≠ 0
      · rw [if_pos hw, decide_eq_true hw, countZeros, Option.bind_some, if_neg (by omega)]
        refine ⟨rfl, fun t ht => ?_⟩
        rw [Option.some.injEq] at ht
        exact ht ▸ ha'
      · have hadd : (m + 128).toNat = m.toNat + 128 := by
          rw [UInt32.toNat_add, show (128 : UInt32).toNat = 128 from rfl]
          omega
        have hcmp : m + 128 > 2047 ↔ m.toNat + 128 > 2047 := by
          rw [← hadd]
          exact Iff.rfl
        rw [if_neg hw, decide_eq_false hw, countZeros]
        by_cases hbig : m + 128 > 2047
        · rw [if_pos hbig]
          refine ⟨?_, fun t ht => by cases ht⟩
          cases countZeros (stream a' buf') with
          | none => rfl
          | some u =>
            have hover : m.toNat + 128 * (u.1 + 1) > 2047 := by
              have h := hcmp.mp hbig
              omega
            simp only [Option.map_some, Option.bind_some, if_pos hover, Option.map_none]
        · rw [if_neg hbig]
          have hle : m.toNat + 128 ≤ 2047 := Nat.le_of_not_lt (mt hcmp.mpr hbig)
          obtain ⟨hval, hlen⟩ := @ih (m + 128) a' buf' ha' (by omega) (by omega)
          refine ⟨?_, hlen⟩
          rw [hval]
          cases countZeros (stream a' buf') with
          | none => rfl
          | some u =>
            simp only [Option.map_some, Option.bind_some, hadd]
            rw [show m.toNat + 128 + 128 * u.1 = m.toNat + 128 * (u.1 + 1) by omega]

/-- `compDecodeCoeff` reads a codeword off the front. -/
theorem compDecodeCoeff_spec {a : Acc} {buf : Bytes} (ha : a.accLen < 8) :
    (compDecodeCoeff a buf).map streamed = readComp (stream a buf) ∧
      ∀ t, compDecodeCoeff a buf = some t → t.2.1.accLen < 8 := by
  cases buf with
  | nil =>
    refine ⟨?_, fun t ht => by cases ht⟩
    have hlen := length_stream a []
    rw [List.length_nil] at hlen
    cases hs : stream a [] with
    | nil => rfl
    | cons s t =>
      rw [hs, List.length_cons] at hlen
      rw [readComp, if_pos (by omega)]
      rfl
  | cons b buf =>
    -- the first eight bits: what `acc >> acc_len` shows, and what is pending after it
    have hacc : a.push 8 b.toUInt32 = ⟨(a.acc <<< 8) ||| b.toUInt32, a.accLen + 8⟩ := rfl
    have hsplit : stream a (b :: buf) =
        ofNat 8 (((a.acc <<< 8) ||| b.toUInt32) >>> UInt32.ofNat a.accLen).toNat ++
          stream ⟨(a.acc <<< 8) ||| b.toUInt32, a.accLen⟩ buf := by
      rw [stream_load ha, hacc, stream, Acc.pending]
      dsimp only
      rw [Nat.add_comm a.accLen 8, ofNat_add, Acc.toNat_shr (by omega), List.append_assoc]
      rfl
    rw [hsplit]
    unfold compDecodeCoeff
    dsimp only
    generalize (a.acc <<< 8) ||| b.toUInt32 = acc
    generalize acc >>> UInt32.ofNat a.accLen = w
    have hm : (w &&& 127).toNat = w.toNat % 2 ^ 7 := Acc.toNat_and_mask (k := 7) (by omega)
    have h7 := length_ofNat 7 w.toNat
    obtain ⟨hval, hlen⟩ := @compUnary_spec 16 (w &&& 127) ⟨acc, a.accLen⟩ buf ha (by omega)
      (by omega)
    constructor
    · rw [show ofNat 8 w.toNat = w.toNat.testBit 7 :: ofNat 7 w.toNat from rfl, List.cons_append,
        readComp, if_neg (by simp), List.take_left' h7, List.drop_left' h7, toNat_ofNat, ← hm]
      cases hz : countZeros (stream ⟨acc, a.accLen⟩ buf) with
      | none =>
        rw [hz, Option.bind_none, Option.map_eq_none_iff] at hval
        rw [hval]
        rfl
      | some u =>
        rw [hz, Option.bind_some] at hval
        rw [Option.bind_some]
        dsimp only
        by_cases hbig : (w &&& 127).toNat + 128 * u.1 > 2047
        · rw [if_pos hbig, Option.map_eq_none_iff] at hval
          rw [hval, if_pos hbig]
          rfl
        · rw [if_neg hbig, Option.map_eq_some_iff] at hval
          obtain ⟨t, ht, heq⟩ := hval
          rw [Prod.mk.injEq] at heq
          obtain ⟨hmt, hst⟩ := heq
          rw [ht, Option.bind_some, compValue_eq, hmt, ← hst, if_neg hbig, Option.map_map]
          rfl
    · intro t ht
      rw [Option.bind_eq_some_iff] at ht
      obtain ⟨u, hu, ht⟩ := ht
      rw [Option.map_eq_some_iff] at ht
      obtain ⟨c, _, hct⟩ := ht
      exact hct ▸ hlen u hu

/-- The loop reads the codewords of its coefficients. -/
theorem compCoeffs_spec {r : Nat} {a : Acc} {buf : Bytes} (ha : a.accLen < 8) :
    (compCoeffs r a buf).map streamed = compCode.readMany r (stream a buf) ∧
      ∀ t, compCoeffs r a buf = some t → t.2.1.accLen < 8 := by
  induction r generalizing a buf with
  | zero =>
    refine ⟨rfl, fun t ht => ?_⟩
    rw [compCoeffs, Option.some.injEq] at ht
    exact ht ▸ ha
  | succ r ih =>
    obtain ⟨hval, hlen⟩ := compDecodeCoeff_spec ha
    rw [compCoeffs, Code.readMany]
    show _ = (readComp (stream a buf)).bind _ ∧ _
    rw [← hval]
    cases hcoeff : compDecodeCoeff a buf with
    | none => exact ⟨rfl, fun t ht => by cases ht⟩
    | some t =>
      obtain ⟨hrest, hrestLen⟩ := @ih t.2.1 t.2.2 (hlen t hcoeff)
      constructor
      · simp only [Option.bind_some, Option.map_some]
        show _ = (compCode.readMany r (stream t.2.1 t.2.2)).map _
        rw [← hrest, Option.map_map, Option.map_map]
        rfl
      · intro u hu
        rw [Option.bind_some, Option.map_eq_some_iff] at hu
        obtain ⟨v, hv, huv⟩ := hu
        exact huv ▸ hrestLen v hv

/-- What `comp_decode` accepts: the packed codewords, at the front of the input. -/
theorem compDecode_eq_some {logn : Nat} {input : Bytes} {x : List Int16} {v : Nat} :
    compDecode logn input = some (x, v) ↔
      x.length = 2 ^ logn ∧ (∀ c ∈ x, compCode.Valid c) ∧ v ≤ input.length ∧
        Packs (input.take v) (x.flatMap compBits) := by
  obtain ⟨hsim, hlen⟩ := @compCoeffs_spec (2 ^ logn) .empty input (by show 0 < 8; omega)
  have hstart : stream .empty input = ofBytes input := rfl
  rw [hstart] at hsim
  unfold compDecode
  rw [Option.bind_eq_some_iff]
  constructor
  · intro ⟨⟨y, a, rest⟩, hcoeffs, hcheck⟩
    dsimp only at hcheck
    split_ifs at hcheck with hleft
    rw [Option.some.injEq, Prod.mk.injEq] at hcheck
    obtain ⟨hx, hv⟩ := hcheck
    subst hx hv
    rw [hcoeffs] at hsim
    obtain ⟨hn, hvalid, hbits⟩ := (Code.readMany_eq_some _).mp hsim.symm
    exact ⟨hn, hvalid, by omega, packs_of_leftover (hlen _ hcoeffs) (not_not.mp hleft) hbits⟩
  · intro ⟨hn, hvalid, hv, hpacks⟩
    have hread : ∃ s, compCode.readMany (2 ^ logn) (ofBytes input) = some (x, s) := by
      obtain ⟨pad, _, heq⟩ := hpacks
      refine ⟨List.replicate pad false ++ ofBytes (input.drop v),
        (Code.readMany_eq_some _).mpr ⟨hn, hvalid, ?_⟩⟩
      rw [← List.append_assoc]
      refine Eq.trans ?_ (congrArg (· ++ _) heq)
      rw [← ofBytes_append, List.take_append_drop]
    obtain ⟨s, hs⟩ := hread
    have hstream := ((Code.readMany_eq_some _).mp hs).2.2
    rw [hs] at hsim
    obtain ⟨⟨y, a, rest⟩, hcoeffs, heq⟩ := Option.map_eq_some_iff.mp hsim
    rw [streamed, Prod.mk.injEq] at heq
    obtain ⟨hxy, hrest⟩ := heq
    dsimp only at hxy hrest
    subst hxy hrest
    obtain ⟨hleft, hv'⟩ := leftover_of_packs (hlen _ hcoeffs) hv hpacks hstream
    refine ⟨(y, a, rest), hcoeffs, ?_⟩
    dsimp only
    rw [if_neg (not_not.mpr hleft), hv']

/-! ## The writer -/

theorem putByte_eq {maxOutLen : Nat} {out : Bytes} {b : UInt8} :
    putByte maxOutLen out b = if out.length + 1 ≤ maxOutLen then some (out ++ [b]) else none := by
  unfold putByte
  split_ifs <;> first | rfl | omega

/-- The bytes of the general loop, as long as the buffer holds them. -/
theorem compDrain_eq {maxOutLen : Nat} {acc : UInt32} {accLen : Nat} {out : Bytes}
    (hout : out.length ≤ maxOutLen) :
    compDrain maxOutLen acc accLen out =
      if out.length + (Acc.drain acc accLen).1.length ≤ maxOutLen then
        some (out ++ (Acc.drain acc accLen).1, (Acc.drain acc accLen).2)
      else none := by
  induction accLen using Nat.strong_induction_on generalizing out with
  | h accLen ih =>
    by_cases hlt : accLen < 8
    · rw [Acc.drain_of_lt hlt, if_pos (by simpa using hout), List.append_nil]
      unfold compDrain
      split
      · omega
      · rfl
    · obtain ⟨rest, rfl⟩ : ∃ rest, accLen = rest + 8 := ⟨accLen - 8, by omega⟩
      rw [compDrain, putByte_eq, Acc.drain]
      dsimp only
      rw [List.length_cons]
      by_cases hfit : out.length + 1 ≤ maxOutLen
      · rw [if_pos hfit, Option.bind_some,
          ih rest (by omega) (by rw [List.length_append, List.length_singleton]; exact hfit),
          List.length_append, List.length_singleton, List.append_assoc, List.singleton_append,
          Nat.add_right_comm]
        rfl
      · rw [if_neg hfit, if_neg (by omega)]
        rfl

/-- A coefficient pushed is its codeword appended; at most 31 bits are pending. -/
theorem compPush_spec {c : Int16} {a : Acc} (ha : a.accLen < 8) (hlo : -2047 ≤ c.toInt)
    (hhi : c.toInt ≤ 2047) :
    (compPush c a).pending = a.pending ++ compBits c ∧ (compPush c a).accLen < 32 := by
  have hw : (UInt32.ofNat c.toInt.natAbs).toNat = c.toInt.natAbs := by
    rw [UInt32.toNat_ofNat']
    exact Nat.mod_eq_of_lt (by omega)
  have hlow : (UInt32.ofNat c.toInt.natAbs &&& 127).toNat = c.toInt.natAbs % 2 ^ 7 := by
    rw [show (UInt32.ofNat c.toInt.natAbs &&& 127).toNat = _ from
      Acc.toNat_and_mask (k := 7) (by omega), hw]
  have hhigh : (UInt32.ofNat c.toInt.natAbs >>> 7).toNat = c.toInt.natAbs / 128 := by
    rw [show (UInt32.ofNat c.toInt.natAbs >>> 7).toNat = _ from
      Acc.toNat_shr (k := 7) (by omega), hw]
    exact Nat.shiftRight_eq_div_pow _ 7
  have hone : ∀ k, ofNat (k + 1) (1 : UInt32).toNat = List.replicate k false ++ [true] := by
    intro k
    have hzero : ofNat k (1 >>> 1) = List.replicate k false := by
      rw [ofNat_eq_replicate]
      simp
    rw [show (1 : UInt32).toNat = 1 from rfl, ofNat_add, hzero]
    rfl
  have hsign : (if c.toInt < 0 then a.push 1 1 else a.push 1 0).pending =
      a.pending ++ [decide (c.toInt < 0)] := by
    by_cases hneg : c.toInt < 0
    · rw [if_pos hneg, decide_eq_true hneg, Acc.pending_push (by decide) (by omega) (by omega)]
      rfl
    · rw [if_neg hneg, decide_eq_false hneg, Acc.pending_push (by decide) (by omega) (by omega)]
      rfl
  have hsignLen : (if c.toInt < 0 then a.push 1 1 else a.push 1 0).accLen = a.accLen + 1 := by
    split_ifs <;> rfl
  unfold compPush
  dsimp only
  rw [hhigh]
  generalize (if c.toInt < 0 then a.push 1 1 else a.push 1 0) = s at hsign hsignLen
  have hlen : ((s.push 7 (UInt32.ofNat c.toInt.natAbs &&& 127)).push
      (c.toInt.natAbs / 128 + 1) 1).accLen = a.accLen + 1 + 7 + (c.toInt.natAbs / 128 + 1) := by
    rw [Acc.push_accLen, Acc.push_accLen, hsignLen]
  constructor
  · rw [Acc.pending_push, Acc.pending_push, hsign, hlow, ofNat_mod, hone, compBits]
    · simp [List.append_assoc]
    · rw [hlow]
      exact Nat.mod_lt _ (by omega)
    · omega
    · omega
    · exact Nat.one_lt_two_pow (by omega)
    · omega
    · rw [Acc.push_accLen, hsignLen]
      omega
  · rw [hlen]
    omega

/-- The loop packs the codewords, as long as the buffer holds them. -/
theorem compLoop_spec {maxOutLen : Nat} {x : List Int16} {a : Acc} {out : Bytes}
    (ha : a.accLen < 8) (hout : out.length ≤ maxOutLen) (hx : ∀ c ∈ x, compCode.Valid c) :
    ∃ bs, Packs bs (a.pending ++ x.flatMap compBits) ∧
      compLoop maxOutLen a out x =
        if out.length + bs.length ≤ maxOutLen then some (out ++ bs) else none := by
  induction x generalizing a out with
  | nil =>
    refine ⟨a.flush, by simpa using Acc.packs_flush ha, ?_⟩
    rw [compLoop, Acc.flush]
    by_cases hpos : a.accLen > 0
    · rw [if_pos hpos, if_pos hpos, putByte_eq]
      rfl
    · rw [if_neg hpos, if_neg hpos, if_pos (by simpa using hout), List.append_nil]
  | cons c x ih =>
    obtain ⟨hlo, hhi⟩ : -2047 ≤ c.toInt ∧ c.toInt ≤ 2047 := hx c (by simp)
    obtain ⟨hpending, hlen⟩ := compPush_spec ha hlo hhi
    obtain ⟨hleft, hdrain⟩ :=
      @Acc.drain_spec (compPush c a).acc (compPush c a).accLen (by omega)
    rw [compLoop, compDrain_eq hout]
    generalize Acc.drain (compPush c a).acc (compPush c a).accLen = d at hleft hdrain
    have hbits : a.pending ++ (c :: x).flatMap compBits =
        ofBytes d.1 ++ (Acc.pending ⟨(compPush c a).acc, d.2⟩ ++ x.flatMap compBits) := by
      rw [List.flatMap_cons, ← List.append_assoc, ← List.append_assoc, ← hpending]
      exact congrArg (· ++ _) hdrain
    by_cases hfit : out.length + d.1.length ≤ maxOutLen
    · obtain ⟨bs, hbs, hloop⟩ := @ih ⟨(compPush c a).acc, d.2⟩ (out ++ d.1) hleft
        (by rw [List.length_append]; exact hfit) fun e he => hx e (by simp [he])
      refine ⟨d.1 ++ bs, hbits ▸ hbs.append, ?_⟩
      rw [if_pos hfit, Option.bind_some, hloop, List.length_append, List.length_append,
        List.append_assoc, Nat.add_assoc]
    · obtain ⟨bs, hbs, _⟩ := @ih ⟨(compPush c a).acc, d.2⟩ [] hleft (by simp)
        fun e he => hx e (by simp [he])
      refine ⟨d.1 ++ bs, hbits ▸ hbs.append, ?_⟩
      rw [if_neg hfit, if_neg (by rw [List.length_append]; omega)]
      rfl

/-- What `comp_encode` returns. -/
theorem compEncode_eq_some {maxOutLen : Nat} {x : List Int16} {out : Bytes} :
    compEncode maxOutLen x = some out ↔
      (∀ c ∈ x, compCode.Valid c) ∧ out.length ≤ maxOutLen ∧ Packs out (x.flatMap compBits) := by
  have hany : x.any (fun c => c.toInt < -2047 || c.toInt > 2047) = true ↔
      ¬ ∀ c ∈ x, compCode.Valid c := by
    rw [List.any_eq_true, not_forall]
    simp only [Bool.or_eq_true, decide_eq_true_iff, Classical.not_imp]
    refine exists_congr fun c => and_congr_right fun _ => ?_
    show _ ↔ ¬ (-2047 ≤ c.toInt ∧ c.toInt ≤ 2047)
    omega
  unfold compEncode
  split_ifs with hbig
  · simp [hany.mp hbig]
  · have hall := not_not.mp (mt hany.mpr hbig)
    obtain ⟨bs, hbs, hloop⟩ := @compLoop_spec maxOutLen x .empty [] (by show 0 < 8; omega)
      (by simp) hall
    rw [hloop, List.nil_append]
    rw [Acc.pending_empty, List.nil_append] at hbs
    rw [List.length_nil, Nat.zero_add]
    constructor
    · intro h
      split_ifs at h with hfit
      rw [Option.some.injEq] at h
      subst h
      exact ⟨hall, hfit, hbs⟩
    · intro ⟨_, hfit, hpacks⟩
      rw [hpacks.unique hbs] at hfit ⊢
      rw [if_pos hfit]

/-- `comp_decode` reads exactly the encodings of `comp_encode`, as what was encoded. -/
theorem compDecode_iff {logn : Nat} {input : Bytes} {x : List Int16} {v : Nat} :
    compDecode logn input = some (x, v) ↔
      x.length = 2 ^ logn ∧ v ≤ input.length ∧ compEncode v x = some (input.take v) := by
  rw [compDecode_eq_some, compEncode_eq_some, List.length_take]
  constructor
  · intro ⟨hlen, hvalid, hv, hpacks⟩
    exact ⟨hlen, hv, hvalid, by omega, hpacks⟩
  · intro ⟨hlen, hv, hvalid, _, hpacks⟩
    exact ⟨hlen, hvalid, hv, hpacks⟩

/-- `comp_decode` reads `x` exactly from the one encoding of `x`. -/
theorem comp_roundTrip {logn : Nat} {input : Bytes} {x : List Int16} {v : Nat} :
    compDecode logn input = some (x, v) ↔
      x.length = 2 ^ logn ∧ Fronts (compEncode · x) input v := by
  have hiff : ∀ n out, compEncode n x = some out ↔
      (∀ c ∈ x, compCode.Valid c) ∧ out.length ≤ n ∧ Packs out (x.flatMap compBits) :=
    fun n out => compEncode_eq_some
  rw [compDecode_iff, fronts_iff hiff]

end Trelyan.Falcon.Codec
