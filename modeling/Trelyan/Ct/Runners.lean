import Trelyan.Ct.NullStreams
import Trelyan.Ct.Session
import Trelyan.Falcon.Core
import Trelyan.Lib.Traced

/-!
# The runners of the experiments

`Fixtures::prepare`, `measure` and the runners of `falcon-ct`.  A runner hands
`measure` a closure that keeps a counter of its own and reads the prepared tables by
it, and `measure` calls the closure once for each sample.

A runner leaves a trace: each call of the closure with its class, each read of a
table with the index and the length of the table, and each call of the library that
is timed.  A read out of range panics, and so does a remainder by zero.  The results
of the timed calls and the buffer that they write to are dropped by the source, and
left out here.
-/

namespace Trelyan.Ct

open Contract (FixedBytes)
open Falcon (Privkey Pubkey Reference)

variable {σ α S : Type}

/-! ## The library -/

/-- What the harness calls of `trelyan-pq-ffi`. -/
structure Bindings (σ : Type) where
  prng : Prng σ
  keygen : σ → Except Int (Privkey × Pubkey) × σ
  lib : Reference

/-- A preparation: it draws from the generator and may fail. -/
abbrev Gen (σ : Type) := ExceptT String (StateM σ)

def Gen.ofFn (x : σ → Except String α × σ) : Gen σ α := x

/-- `random_bytes`, in a preparation. -/
def Gen.randomBytes (b : Bindings σ) (n : ℕ) : Gen σ Bytes :=
  .ofFn fun rng =>
    let (bytes, rng) := Ct.randomBytes b.prng rng n
    (.ok bytes, rng)

/-- `n` results in a vector. -/
def Gen.collect (n : ℕ) (x : Gen σ α) : Gen σ (List α) :=
  (List.range n).mapM fun _ => x

structure Keypair where
  sk : Privkey
  pk : Pubkey

def genKeypair (b : Bindings σ) : Gen σ Keypair :=
  .ofFn fun rng =>
    match b.keygen rng with
    | (.ok (sk, pk), rng) => (.ok ⟨sk, pk⟩, rng)
    | (.error c, rng) => (.error s!"keygen failed (reference code {c})", rng)

/-- `sign_compressed` in a preparation.  The binding returns at most the length of the buffer, so
that the slice of the buffer is in range. -/
def signFixture (b : Bindings σ) (sk : Privkey) (m : Bytes) : Gen σ Bytes :=
  match Falcon.Core.ffiSignCompressed b.lib sk m with
  | .ok (n, buf) => pure (buf.bytes.take n)
  | .error c => throw s!"sign failed ({c})"

/-! ## The fixtures -/

def msgLen : ℕ := 64

/-- Messages that `sign-kk` rotates through. -/
def kkMessages : ℕ := 4

/-- Everything the timed closures index into. -/
structure Fixtures where
  k0 : Keypair
  pool : List Keypair
  /-- A second, independent pool for `sign-rr`. -/
  poolB : List Keypair
  kk : List (Keypair × Keypair)
  /-- The same keypair twice. -/
  aa : Keypair × Keypair
  m0 : Bytes
  msgs : List Bytes
  s0 : Bytes
  poolSigs : List Bytes
  /-- Two streams of pool indices, one for each random-class experiment. -/
  idxStream : List ℕ
  seeds : List (FixedBytes 32)
  fixedSeed : FixedBytes 32

/-- Random bytes as indices into a pool. -/
def poolIndices (bytes : Bytes) : List ℕ := bytes.map fun b => b.toNat % keyPool

/-- `Fixtures::prepare`. -/
def prepare (b : Bindings σ) (samples : ℕ) : Gen σ Fixtures := do
  let k0 ← genKeypair b
  let pool ← Gen.collect keyPool (genKeypair b)
  let poolB ← Gen.collect keyPool (genKeypair b)
  let kk ← Gen.collect kkPairs (do
    let ka ← genKeypair b
    let kb ← genKeypair b
    return (ka, kb))
  let aaKey ← genKeypair b
  let aa := (aaKey, aaKey)
  let m0 ← Gen.randomBytes b msgLen
  let msgs ← Gen.collect keyPool (Gen.randomBytes b msgLen)
  let s0 ← signFixture b k0.sk m0
  let poolSigs ← pool.mapM fun kp => signFixture b kp.sk m0
  let idxBytes ← Gen.randomBytes b (samples * 2)
  let idxStream := poolIndices idxBytes
  let seeds ← Gen.collect samples (.ofFn fun rng =>
    let (seed, rng) := b.prng.extract rng 32
    (.ok seed, rng))
  return {
    k0, pool, poolB, kk, aa, m0, msgs, s0, poolSigs, idxStream, seeds
    fixedSeed := ⟨List.replicate 32 0x5A, List.length_replicate⟩ }

/-! ## Events -/

/-- The tables that the closures read. -/
inductive Table where
  | pool
  | poolA
  | poolB
  | kk
  | msgs
  | poolSigs
  | idxStream
  | seeds
  | idx
  | pairs
  deriving DecidableEq, Repr

inductive Event where
  /-- `measure` calls the closure with a class. -/
  | call (cls : Bool)
  | read (table : Table) (index length : ℕ)
  | sign (sk : Privkey) (m : Bytes)
  | verify (sig : Bytes) (pk : Pubkey) (m : Bytes)
  | keygen (seed : FixedBytes 32)

open Traced (emit ofOption times)

/-- `xs[i]`, with the read in the trace also where it panics. -/
def readAt (table : Table) (xs : List α) (i : ℕ) : Traced Event α :=
  ⟨[.read table i xs.length], xs[i]?⟩

/-- `n % d`. -/
def rem (n d : ℕ) : Traced Event ℕ := ofOption (checkedRem n d)

/-! ## The measurement -/

/-- `u64::MAX`. -/
def u64Max : ℕ := 2 ^ 64 - 1

/-- `ClassBits::next`: one byte for each bit. -/
def nextBit (g : Prng σ) (bits : σ) : Bool × σ :=
  let (bytes, bits) := randomBytes g bits 1
  ((bytes.headD 0) &&& 1 = 1, bits)

/-- One round: the class, the timed call of the closure and the sample.  The nanoseconds that
round `k` takes are `elapsed k`. -/
def measureRound (nextClassBit : σ → Bool × σ) (elapsed : ℕ → ℕ) (op : S → Bool → Traced Event S) :
    List (ℕ × ℕ) × σ × S → Traced Event (List (ℕ × ℕ) × σ × S)
  | (samples, bits, s) => do
    let (cls, bits) := nextClassBit bits
    emit (.call cls)
    let s ← op s cls
    let ns := min (elapsed samples.length) u64Max
    return (samples ++ [(cls.toNat, ns)], bits, s)

/-- `measure`, with the state of the bit source and that of the closure. -/
def measure (total : ℕ) (nextClassBit : σ → Bool × σ) (elapsed : ℕ → ℕ)
    (op : S → Bool → Traced Event S) (bits : σ) (s : S) : Traced Event (RawSamples × σ) := do
  let (samples, bits, _) ← times total (measureRound nextClassBit elapsed op) ([], bits, s)
  return (⟨samples⟩, bits)

/-! ## The Falcon experiments -/

/-- The closure of `run_sign_key`: class 0 signs with `K0`, class 1 with a key of the pool. -/
def signKeyOp (f : Fixtures) (i : ℕ) (cls : Bool) : Traced Event ℕ := do
  let sk ← (if cls then do
      let j ← readAt .idxStream f.idxStream i
      let kp ← readAt .pool f.pool j
      pure kp.sk
    else
      pure f.k0.sk)
  let i := i + 1
  emit (.sign sk f.m0)
  return i

/-- The closure of `run_sign_kk` and `run_sign_aa_pair`: one key for each class, and the message
rotates for both. -/
def signPairOp (pair : Keypair × Keypair) (msgs : List Bytes) (i : ℕ) (cls : Bool) :
    Traced Event ℕ := do
  let sk := if cls then pair.2.sk else pair.1.sk
  let r ← rem i kkMessages
  let m ← readAt .msgs msgs r
  let i := i + 1
  emit (.sign sk m)
  return i

/-- The closure of `run_sign_rr` and `run_null_rr`: one pool for each class, and one stream of
indices for both. -/
def signPoolsOp (stream : Table × List ℕ) (pools : (Table × List Keypair) × (Table × List Keypair))
    (m0 : Bytes) (i : ℕ) (cls : Bool) : Traced Event ℕ := do
  let r ← rem i stream.2.length
  let j ← readAt stream.1 stream.2 r
  let kp ← (if cls then readAt pools.2.1 pools.2.2 j else readAt pools.1.1 pools.1.2 j)
  let i := i + 1
  emit (.sign kp.sk m0)
  return i

/-- The closure of `run_sign_msg`: it reads the second half of the stream. -/
def signMsgOp (f : Fixtures) (samples i : ℕ) (cls : Bool) : Traced Event ℕ := do
  let m ← (if cls then do
      let j ← readAt .idxStream f.idxStream (samples + i)
      readAt .msgs f.msgs j
    else
      pure f.m0)
  let i := i + 1
  emit (.sign f.k0.sk m)
  return i

def verifyCtrlOp (f : Fixtures) (i : ℕ) (cls : Bool) : Traced Event ℕ := do
  let (sig, pk) ← (if cls then do
      let j ← readAt .idxStream f.idxStream i
      let sig ← readAt .poolSigs f.poolSigs j
      let kp ← readAt .pool f.pool j
      pure (sig, kp.pk)
    else
      pure (f.s0, f.k0.pk))
  let i := i + 1
  emit (.verify sig pk f.m0)
  return i

/-- The closure of `run_keygen`; the generator of the timed call is made from the seed. -/
def keygenOp (f : Fixtures) (i : ℕ) (cls : Bool) : Traced Event ℕ := do
  let seed ← (if cls then readAt .seeds f.seeds i else pure f.fixedSeed)
  let i := i + 1
  emit (.keygen seed)
  return i

section Experiments

variable (g : Prng σ) (elapsed : ℕ → ℕ) (f : Fixtures)

def runSignKey (samples : ℕ) (bits : σ) : Traced Event (RawSamples × σ) :=
  measure samples (nextBit g) elapsed (signKeyOp f) bits 0

/-- `run_sign_kk`; a pair that does not exist panics before the first call. -/
def runSignKk (pair samples : ℕ) (bits : σ) : Traced Event (RawSamples × σ) := do
  let keys ← readAt .kk f.kk pair
  measure samples (nextBit g) elapsed (signPairOp keys f.msgs) bits 0

def runSignAaPair (pair : Keypair × Keypair) (msgs : List Bytes) (samples : ℕ) (bits : σ) :
    Traced Event (RawSamples × σ) :=
  measure samples (nextBit g) elapsed (signPairOp pair msgs) bits 0

def runSignAa (samples : ℕ) (bits : σ) : Traced Event (RawSamples × σ) :=
  runSignAaPair g elapsed f.aa f.msgs samples bits

def runSignRr (samples : ℕ) (bits : σ) : Traced Event (RawSamples × σ) :=
  measure samples (nextBit g) elapsed
    (signPoolsOp (.idxStream, f.idxStream) ((.pool, f.pool), (.poolB, f.poolB)) f.m0) bits 0

def runSignMsg (samples : ℕ) (bits : σ) : Traced Event (RawSamples × σ) :=
  measure samples (nextBit g) elapsed (signMsgOp f samples) bits 0

def runVerifyCtrl (samples : ℕ) (bits : σ) : Traced Event (RawSamples × σ) :=
  measure samples (nextBit g) elapsed (verifyCtrlOp f) bits 0

def runKeygen (samples : ℕ) (bits : σ) : Traced Event (RawSamples × σ) :=
  measure samples (nextBit g) elapsed (keygenOp f) bits 0

end Experiments

/-! ## The null sessions -/

/-- The closure of `run_null_ss`: one pool, and an index of its own for each class. -/
def nullSsOp (pairs : List (ℕ × ℕ)) (pool : List Keypair) (m0 : Bytes) (i : ℕ) (cls : Bool) :
    Traced Event ℕ := do
  let r ← rem i pairs.length
  let (a, b) ← readAt .pairs pairs r
  let kp ← (if cls then readAt .pool pool b else readAt .pool pool a)
  let i := i + 1
  emit (.sign kp.sk m0)
  return i

/-- What `run_null_rr` prepares: the two pools, the message and the indices. -/
structure NullRr where
  poolA : List Keypair
  poolB : List Keypair
  m0 : Bytes
  idx : List ℕ

def prepareNullRr (b : Bindings σ) (samples : ℕ) : Gen σ NullRr := do
  -- the two pools grow in turns
  let pools ← Gen.collect keyPool (do
    let ka ← genKeypair b
    let kb ← genKeypair b
    return (ka, kb))
  let m0 ← Gen.randomBytes b msgLen
  let idxBytes ← Gen.randomBytes b samples
  return ⟨pools.map Prod.fst, pools.map Prod.snd, m0, poolIndices idxBytes⟩

section Nulls

variable (b : Bindings σ) (elapsed : ℕ → ℕ)

/-- `run_null_rr`, with the next state of the generator and of the bit source. -/
def runNullRr (samples : ℕ) (rng bits : σ) : Traced Event (Except String RawSamples × σ × σ) :=
  match prepareNullRr b samples rng with
  | (.error e, rng) => return (.error e, rng, bits)
  | (.ok f, rng) => do
    let (raw, bits) ← measure samples (nextBit b.prng) elapsed
      (signPoolsOp (.idx, f.idx) ((.poolA, f.poolA), (.poolB, f.poolB)) f.m0) bits 0
    return (.ok raw, rng, bits)

/-- `run_null_ss`. -/
def runNullSs (samples : ℕ) (rng bits : σ) : Traced Event (Except String RawSamples × σ × σ) :=
  match Gen.collect keyPool (genKeypair b) rng with
  | (.error e, rng) => return (.error e, rng, bits)
  | (.ok pool, rng) => do
    let (m0, rng) := randomBytes b.prng rng msgLen
    let (drawn, rng) := nullSsIndexPairs b.prng rng samples keyPool
    let pairs ← ofOption drawn
    let (raw, bits) ← measure samples (nextBit b.prng) elapsed (nullSsOp pairs pool m0) bits 0
    return (.ok raw, rng, bits)

end Nulls

end Trelyan.Ct
