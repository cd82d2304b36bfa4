import Trelyan.Ct.Runners

/-!
# The index safety of the runners

A panic in the last measurement loses a session of hours, so no read of a timed
closure may be out of range.  The closures index tables of several lengths with
counters of their own, and three facts make that safe: `measure` calls a closure once
for each sample (`measure_ends`), the tables that `prepare` fills have the lengths that
the counters need (`prepare_sized`), and the indices in the stream are indices of the
pool.

`index_safety` puts them together for each runner.  It also says which half of the
stream an experiment reads: `sign-key` and `sign-msg` never read the same entry.
-/

namespace Trelyan.Ct

open Contract (FixedBytes)
open Falcon (Privkey Pubkey)
open Traced (Ends Emits emits_bind emits_pure emits_emit emits_ofOption emits_ite)

variable {σ α β S : Type} {b : Bindings σ} {n : ℕ}

/-! ## What a preparation yields -/

/-- Every result of `x` satisfies `P`. -/
def Gen.Yields (P : α → Prop) (x : Gen σ α) : Prop :=
  ∀ (rng : σ) (a : α) (rng' : σ), x rng = (.ok a, rng') → P a

namespace Gen

variable {P : α → Prop} {Q : β → Prop}

theorem yields_pure {a : α} (h : P a) : Yields P (pure a : Gen σ α) := by
  intro rng a' rng' hrun
  cases hrun
  exact h

theorem yields_true (x : Gen σ α) : Yields (fun _ => True) x := fun _ _ _ _ => trivial

theorem bind_apply (x : Gen σ α) (f : α → Gen σ β) (rng : σ) :
    (x >>= f) rng =
      match x rng with
      | (.ok a, rng') => f a rng'
      | (.error e, rng') => (.error e, rng') := by
  have hbind : (x >>= f) rng = ExceptT.bindCont f (x rng).1 (x rng).2 := rfl
  rw [hbind]
  rcases x rng with ⟨e | a, rng'⟩ <;> rfl

theorem yields_bind {x : Gen σ α} {f : α → Gen σ β} (hx : Yields P x)
    (hf : ∀ a, P a → Yields Q (f a)) : Yields Q (x >>= f) := by
  intro rng c rng' hrun
  rw [bind_apply] at hrun
  cases hstep : x rng with
  | mk r rng1 =>
    rw [hstep] at hrun
    cases r with
    | error e => cases hrun
    | ok a => exact hf a (hx rng a rng1 hstep) rng1 c rng' hrun

theorem yields_mapM {γ : Type} {f : γ → Gen σ α} (hf : ∀ c, Yields P (f c)) (xs : List γ) :
    Yields (fun l => l.length = xs.length ∧ ∀ a ∈ l, P a) (xs.mapM f) := by
  induction xs with
  | nil => exact yields_pure (by simp)
  | cons c xs ih =>
    rw [List.mapM_cons]
    refine yields_bind (hf c) fun a ha => yields_bind ih fun l hl => yields_pure ?_
    refine ⟨by simp [hl.1], ?_⟩
    simpa [ha] using hl.2

theorem yields_collect {x : Gen σ α} (k : ℕ) :
    Yields (fun l => l.length = k) (collect k x) := by
  have h := yields_mapM (fun _ => yields_true x) (List.range k)
  intro rng l rng' hrun
  have hlen := (h rng l rng' hrun).1
  rwa [List.length_range] at hlen

theorem yields_randomBytes (k : ℕ) :
    Yields (fun bytes => bytes.length = k) (Gen.randomBytes b k) := by
  intro rng bytes rng' hrun
  cases hrun
  exact length_randomBytes b.prng rng k

end Gen

/-- The lengths of the tables that are prepared for `n` samples. -/
structure Sized (n : ℕ) (f : Fixtures) : Prop where
  pool : f.pool.length = keyPool
  poolB : f.poolB.length = keyPool
  kk : f.kk.length = kkPairs
  msgs : f.msgs.length = keyPool
  poolSigs : f.poolSigs.length = keyPool
  idxStream : f.idxStream.length = 2 * n
  idx_lt : ∀ j ∈ f.idxStream, j < keyPool
  seeds : f.seeds.length = n

/-- An index of the stream is in range in every table of the length of the pool. -/
theorem Sized.lt_length {f : Fixtures} (hf : Sized n f) {j : ℕ} (hj : j ∈ f.idxStream)
    {xs : List α} (hxs : xs.length = keyPool) : j < xs.length := by
  rw [hxs]
  exact hf.idx_lt j hj

theorem Sized.lt_stream {f : Fixtures} (hf : Sized n f) {i : ℕ} (hi : i < 2 * n) :
    i < f.idxStream.length := by
  rwa [hf.idxStream]

theorem poolIndices_lt (bytes : Bytes) : ∀ j ∈ poolIndices bytes, j < keyPool :=
  residues_lt (by decide) bytes

@[simp] theorem length_poolIndices (bytes : Bytes) : (poolIndices bytes).length = bytes.length :=
  List.length_map ..

theorem prepare_sized (b : Bindings σ) (n : ℕ) : Gen.Yields (Sized n) (prepare b n) := by
  unfold prepare
  refine Gen.yields_bind (Gen.yields_true _) fun k0 _ => ?_
  refine Gen.yields_bind (Gen.yields_collect _) fun pool hpool => ?_
  refine Gen.yields_bind (Gen.yields_collect _) fun poolB hpoolB => ?_
  refine Gen.yields_bind (Gen.yields_collect _) fun kk hkk => ?_
  refine Gen.yields_bind (Gen.yields_true _) fun aaKey _ => ?_
  refine Gen.yields_bind (Gen.yields_true _) fun m0 _ => ?_
  refine Gen.yields_bind (Gen.yields_collect _) fun msgs hmsgs => ?_
  refine Gen.yields_bind (Gen.yields_true _) fun s0 _ => ?_
  refine Gen.yields_bind (Gen.yields_mapM (fun _ => Gen.yields_true _) pool) fun sigs hsigs => ?_
  refine Gen.yields_bind (Gen.yields_randomBytes _) fun bytes hbytes => ?_
  refine Gen.yields_bind (Gen.yields_collect _) fun seeds hseeds => Gen.yields_pure ?_
  exact {
    pool := hpool
    poolB := hpoolB
    kk := hkk
    msgs := hmsgs
    poolSigs := hsigs.1.trans hpool
    idxStream := by rw [length_poolIndices, hbytes, Nat.mul_comm]
    idx_lt := poolIndices_lt bytes
    seeds := hseeds }

theorem prepareNullRr_sized (b : Bindings σ) (n : ℕ) :
    Gen.Yields (fun f => f.poolA.length = keyPool ∧ f.poolB.length = keyPool ∧
      f.idx.length = n ∧ ∀ j ∈ f.idx, j < keyPool) (prepareNullRr b n) := by
  unfold prepareNullRr
  refine Gen.yields_bind (Gen.yields_collect _) fun pools hpools => ?_
  refine Gen.yields_bind (Gen.yields_true _) fun m0 _ => ?_
  refine Gen.yields_bind (Gen.yields_randomBytes _) fun bytes hbytes => Gen.yields_pure ?_
  refine ⟨?_, ?_, ?_, poolIndices_lt bytes⟩
  · rw [List.length_map, hpools]
  · rw [List.length_map, hpools]
  · rw [length_poolIndices, hbytes]

/-! ## Safe runs -/

def Event.isCall : Event → Bool
  | .call _ => true
  | _ => false

/-- A read is in range, and at an index that `P` allows for its table. -/
def Event.Safe (P : Table → ℕ → Prop) : Event → Prop
  | .read table index length => index < length ∧ P table index
  | _ => True

/-- `n` samples from `n` calls, with no panic and every read safe. -/
def SafeRun (P : Table → ℕ → Prop) (n : ℕ) (x : Traced Event (RawSamples × σ)) : Prop :=
  Ends (fun t out => out.1.samples.length = n ∧ t.countP Event.isCall = n ∧
    ∀ e ∈ t, e.Safe P) x

/-- An event of a closure: it does not call the closure again. -/
def Event.Inner (P : Table → ℕ → Prop) (e : Event) : Prop := e.isCall = false ∧ e.Safe P

variable {P : Table → ℕ → Prop}

theorem countP_inner {t : List Event} (h : ∀ e ∈ t, e.Inner P) : t.countP Event.isCall = 0 := by
  rw [List.countP_eq_zero]
  intro e he
  rw [(h e he).1]
  exact Bool.false_ne_true

section Measure

variable {next : σ → Bool × σ} {elapsed : ℕ → ℕ} {op : ℕ → Bool → Traced Event ℕ}

/-- After `k` rounds with a closure that counts its calls. -/
def AfterRounds (P : Table → ℕ → Prop) (k : ℕ) (t : List Event) :
    List (ℕ × ℕ) × σ × ℕ → Prop
  | (samples, _, i) =>
    samples.length = k ∧ i = k ∧ t.countP Event.isCall = k ∧ ∀ e ∈ t, e.Safe P

theorem round_ends {k : ℕ} {t : List Event} {st : List (ℕ × ℕ) × σ × ℕ}
    (hop : ∀ cls, Emits (Event.Inner P) (· = k + 1) (op k cls)) (h : AfterRounds P k t st) :
    Ends (fun t' st' => AfterRounds P (k + 1) (t ++ t') st') (measureRound next elapsed op st) := by
  rcases st with ⟨samples, bits, i⟩
  rcases h with ⟨hlen, rfl, hcount, hsafe⟩
  unfold measureRound
  refine Traced.ends_bind (Traced.ends_emit ?_)
  refine Traced.ends_bind ((hop (next bits).1).mono fun t' i' h' => ?_)
  refine Traced.ends_pure ⟨?_, h'.2, ?_, ?_⟩
  · simp [hlen]
  · simp [List.countP_cons, hcount, countP_inner h'.1, Event.isCall]
  · intro e he
    simp only [List.append_nil, List.mem_append, List.mem_singleton] at he
    rcases he with he | rfl | he
    · exact hsafe e he
    · trivial
    · exact (h'.1 e he).2

/-- `measure` calls its closure `n` times.  A closure that counts is called with each number below
`n` once, and if it is safe for these the run is safe. -/
theorem measure_ends (hop : ∀ i cls, i < n → Emits (Event.Inner P) (· = i + 1) (op i cls))
    (bits : σ) : SafeRun P n (measure n next elapsed op bits 0) := by
  have hround : ∀ k t st, k < n → AfterRounds P k t st →
      Ends (fun t' st' => AfterRounds P (k + 1) (t ++ t') st')
        (measureRound next elapsed op st) := by
    intro k t st hk h
    exact round_ends (fun cls => hop k cls hk) h
  have hinit : AfterRounds P 0 [] ([], bits, 0) :=
    ⟨rfl, rfl, rfl, fun _ he => absurd he List.not_mem_nil⟩
  have hloop := Traced.ends_times (AfterRounds P) hround hinit
  unfold measure
  refine Traced.ends_bind (hloop.mono fun t st h => ?_)
  refine Traced.ends_pure ⟨h.1, ?_⟩
  rw [List.append_nil]
  exact h.2.2

end Measure

/-! ## The closures -/

section Closures

variable {table : Table} {xs : List α} {i k d : ℕ} {f : Fixtures}

theorem emits_readAt (hi : i < xs.length) (hP : P table i) :
    Emits (Event.Inner P) (· ∈ xs) (readAt table xs i) := by
  refine ⟨xs[i], List.getElem?_eq_getElem hi, ?_, List.getElem_mem hi⟩
  intro e he
  cases List.mem_singleton.mp he
  exact ⟨rfl, hi, hP⟩

theorem emits_rem (h : 0 < d) (k : ℕ) : Emits (Event.Inner P) (· < d) (rem k d) :=
  emits_ofOption (checkedRem_of_pos h k) (Nat.mod_lt k h)

/-- The end of a closure: it counts, and calls the library. -/
theorem emits_finish {e : Event} (he : e.Inner P) :
    Emits (Event.Inner P) (· = i + 1) (do Traced.emit e; return i + 1) :=
  emits_bind (Q := fun _ => True) (emits_emit he trivial) fun _ _ => emits_pure rfl

theorem inner_sign (sk : Privkey) (m : Bytes) : (Event.sign sk m).Inner P := ⟨rfl, trivial⟩

theorem inner_verify (sig : Bytes) (pk : Pubkey) (m : Bytes) : (Event.verify sig pk m).Inner P :=
  ⟨rfl, trivial⟩

theorem inner_keygen (seed : FixedBytes 32) : (Event.keygen seed).Inner P := ⟨rfl, trivial⟩

/-- Every read is allowed. -/
def anywhere : Table → ℕ → Prop := fun _ _ => True

/-- The stream is read in its first `n` entries only. -/
def firstHalf (n : ℕ) : Table → ℕ → Prop := fun table i => table = .idxStream → i < n

/-- The stream is read from its entry `n` on only. -/
def secondHalf (n : ℕ) : Table → ℕ → Prop := fun table i => table = .idxStream → n ≤ i

theorem signKeyOp_safe (hf : Sized n f) (hi : i < n) (cls : Bool) :
    Emits (Event.Inner (firstHalf n)) (· = i + 1) (signKeyOp f i cls) := by
  have hstream := hf.lt_stream (show i < 2 * n by omega)
  have hkey : Emits (Event.Inner (firstHalf n)) (fun _ => True) (do
      let j ← readAt .idxStream f.idxStream i
      let kp ← readAt .pool f.pool j
      pure kp.sk) := by
    refine emits_bind (emits_readAt hstream fun _ => hi) fun j hj => ?_
    have hpool := hf.lt_length hj hf.pool
    exact emits_bind (emits_readAt hpool (by simp [firstHalf])) fun _ _ => emits_pure trivial
  unfold signKeyOp
  refine emits_bind (emits_ite hkey (emits_pure trivial)) fun sk _ => ?_
  exact emits_finish (inner_sign _ _)

theorem signPairOp_safe (pair : Keypair × Keypair) {msgs : List Bytes}
    (hmsgs : msgs.length = keyPool) (i : ℕ) (cls : Bool) :
    Emits (Event.Inner anywhere) (· = i + 1) (signPairOp pair msgs i cls) := by
  refine emits_bind (emits_rem (by decide) i) fun r hr => ?_
  have hread : r < msgs.length := by
    rw [hmsgs]
    exact hr.trans (by decide)
  refine emits_bind (emits_readAt hread trivial) fun m _ => ?_
  exact emits_finish (inner_sign _ _)

/-- The stream is not empty where the closure is called, because it has an entry for each call. -/
theorem signPoolsOp_safe {stream : Table × List ℕ}
    {pools : (Table × List Keypair) × (Table × List Keypair)} (m0 : Bytes)
    (hstream : 0 < stream.2.length) (hidx : ∀ j ∈ stream.2, j < keyPool)
    (hfst : pools.1.2.length = keyPool) (hsnd : pools.2.2.length = keyPool) (i : ℕ) (cls : Bool) :
    Emits (Event.Inner anywhere) (· = i + 1) (signPoolsOp stream pools m0 i cls) := by
  refine emits_bind (emits_rem hstream i) fun r hr => ?_
  refine emits_bind (emits_readAt hr trivial) fun j hj => ?_
  have hj' := hidx j hj
  have hkey : Emits (Event.Inner anywhere) (fun _ => True)
      (if cls then readAt pools.2.1 pools.2.2 j else readAt pools.1.1 pools.1.2 j) := by
    cases cls with
    | false => exact (emits_readAt (by omega) trivial).forget
    | true => exact (emits_readAt (by omega) trivial).forget
  refine emits_bind hkey fun kp _ => ?_
  exact emits_finish (inner_sign _ _)

theorem signMsgOp_safe (hf : Sized n f) (hi : i < n) (cls : Bool) :
    Emits (Event.Inner (secondHalf n)) (· = i + 1) (signMsgOp f n i cls) := by
  have hstream := hf.lt_stream (show n + i < 2 * n by omega)
  have hmsg : Emits (Event.Inner (secondHalf n)) (fun _ => True) (do
      let j ← readAt .idxStream f.idxStream (n + i)
      readAt .msgs f.msgs j) := by
    refine emits_bind (emits_readAt hstream fun _ => Nat.le_add_right n i) fun j hj => ?_
    have hmsgs := hf.lt_length hj hf.msgs
    exact (emits_readAt hmsgs (by simp [secondHalf])).forget
  unfold signMsgOp
  refine emits_bind (emits_ite hmsg (emits_pure trivial)) fun m _ => ?_
  exact emits_finish (inner_sign _ _)

theorem verifyCtrlOp_safe (hf : Sized n f) (hi : i < n) (cls : Bool) :
    Emits (Event.Inner anywhere) (· = i + 1) (verifyCtrlOp f i cls) := by
  have hstream := hf.lt_stream (show i < 2 * n by omega)
  have hsig : Emits (Event.Inner anywhere) (fun _ => True) (do
      let j ← readAt .idxStream f.idxStream i
      let sig ← readAt .poolSigs f.poolSigs j
      let kp ← readAt .pool f.pool j
      pure (sig, kp.pk)) := by
    refine emits_bind (emits_readAt hstream trivial) fun j hj => ?_
    refine emits_bind (emits_readAt (hf.lt_length hj hf.poolSigs) trivial) fun sig _ => ?_
    exact emits_bind (emits_readAt (hf.lt_length hj hf.pool) trivial) fun kp _ =>
      emits_pure trivial
  unfold verifyCtrlOp
  refine emits_bind (emits_ite hsig (emits_pure trivial)) fun x _ => ?_
  exact emits_finish (inner_verify _ _ _)

theorem keygenOp_safe (hf : Sized n f) (hi : i < n) (cls : Bool) :
    Emits (Event.Inner anywhere) (· = i + 1) (keygenOp f i cls) := by
  have hseeds : i < f.seeds.length := by
    rw [hf.seeds]
    exact hi
  have hseed : Emits (Event.Inner anywhere) (fun _ => True) (readAt .seeds f.seeds i) :=
    (emits_readAt hseeds trivial).forget
  unfold keygenOp
  refine emits_bind (emits_ite hseed (emits_pure trivial)) fun s _ => ?_
  exact emits_finish (inner_keygen _)

theorem nullSsOp_safe {pairs : List (ℕ × ℕ)} {pool : List Keypair} (m0 : Bytes)
    (hpairs : 0 < pairs.length) (hidx : ∀ x ∈ pairs, x.1 < keyPool ∧ x.2 < keyPool)
    (hpool : pool.length = keyPool) (i : ℕ) (cls : Bool) :
    Emits (Event.Inner anywhere) (· = i + 1) (nullSsOp pairs pool m0 i cls) := by
  refine emits_bind (emits_rem hpairs i) fun r hr => ?_
  refine emits_bind (emits_readAt hr trivial) fun x hx => ?_
  have hx' := hidx x hx
  have hkey : Emits (Event.Inner anywhere) (fun _ => True)
      (if cls then readAt .pool pool x.2 else readAt .pool pool x.1) := by
    cases cls with
    | false => exact (emits_readAt (by omega) trivial).forget
    | true => exact (emits_readAt (by omega) trivial).forget
  refine emits_bind hkey fun kp _ => ?_
  exact emits_finish (inner_sign _ _)

end Closures

/-! ## The runners -/

section Experiments

variable {g : Prng σ} {elapsed : ℕ → ℕ} {f : Fixtures}

theorem runSignKey_safe (hf : Sized n f) (bits : σ) :
    SafeRun (firstHalf n) n (runSignKey g elapsed f n bits) :=
  measure_ends (fun _ cls hi => signKeyOp_safe hf hi cls) bits

/-- The pair is read before the first call. -/
theorem runSignKk_safe (hf : Sized n f) {pair : ℕ} (hpair : pair < kkPairs) (bits : σ) :
    SafeRun anywhere n (runSignKk g elapsed f pair n bits) := by
  have hread : pair < f.kk.length := by rwa [hf.kk]
  have hpairRead : Emits (Event.Inner anywhere) (· ∈ f.kk) (readAt .kk f.kk pair) :=
    emits_readAt hread trivial
  unfold runSignKk
  refine Traced.ends_bind (hpairRead.mono fun t keys h => ?_)
  refine (measure_ends (fun i cls _ => signPairOp_safe keys hf.msgs i cls) bits).mono
    fun t' out h' => ⟨h'.1, ?_, ?_⟩
  · rw [List.countP_append, countP_inner h.1, h'.2.1, Nat.zero_add]
  · intro e he
    rcases List.mem_append.mp he with ht | ht'
    · exact (h.1 e ht).2
    · exact h'.2.2 e ht'

theorem runSignKk_missing (hf : Sized n f) {pair : ℕ} (hpair : kkPairs ≤ pair) (bits : σ) :
    (runSignKk g elapsed f pair n bits).result = none ∧
      (runSignKk g elapsed f pair n bits).trace.countP Event.isCall = 0 := by
  have hnone : f.kk[pair]? = none := by
    rw [List.getElem?_eq_none_iff, hf.kk]
    exact hpair
  have hpanic : runSignKk g elapsed f pair n bits = ⟨[.read .kk pair f.kk.length], none⟩ := by
    simp [runSignKk, readAt, bind, hnone]
  rw [hpanic]
  exact ⟨rfl, rfl⟩

theorem runSignAaPair_safe (hf : Sized n f) (pair : Keypair × Keypair) (bits : σ) :
    SafeRun anywhere n (runSignAaPair g elapsed pair f.msgs n bits) :=
  measure_ends (fun i cls _ => signPairOp_safe pair hf.msgs i cls) bits

theorem runSignAa_safe (hf : Sized n f) (bits : σ) :
    SafeRun anywhere n (runSignAa g elapsed f n bits) :=
  runSignAaPair_safe hf f.aa bits

theorem runSignRr_safe (hf : Sized n f) (bits : σ) :
    SafeRun anywhere n (runSignRr g elapsed f n bits) := by
  refine measure_ends (fun i cls hi => ?_) bits
  have hstream := hf.lt_stream (show 0 < 2 * n by omega)
  exact signPoolsOp_safe f.m0 hstream hf.idx_lt hf.pool hf.poolB i cls

theorem runSignMsg_safe (hf : Sized n f) (bits : σ) :
    SafeRun (secondHalf n) n (runSignMsg g elapsed f n bits) :=
  measure_ends (fun _ cls hi => signMsgOp_safe hf hi cls) bits

theorem runVerifyCtrl_safe (hf : Sized n f) (bits : σ) :
    SafeRun anywhere n (runVerifyCtrl g elapsed f n bits) :=
  measure_ends (fun _ cls hi => verifyCtrlOp_safe hf hi cls) bits

theorem runKeygen_safe (hf : Sized n f) (bits : σ) :
    SafeRun anywhere n (runKeygen g elapsed f n bits) :=
  measure_ends (fun _ cls hi => keygenOp_safe hf hi cls) bits

/-- A read of a safe run. -/
theorem SafeRun.read {P : Table → ℕ → Prop} {x : Traced Event (RawSamples × σ)}
    (h : SafeRun P n x) {table : Table} {i len : ℕ} (hread : .read table i len ∈ x.trace) :
    i < len ∧ P table i := by
  rcases h with ⟨_, _, _, _, hsafe⟩
  exact hsafe _ hread

/-- No entry of the stream is read by both experiments. -/
theorem streams_disjoint (hf : Sized n f) {elapsed' : ℕ → ℕ} {bits bits' : σ} {i len len' : ℕ}
    (hkey : .read .idxStream i len ∈ (runSignKey g elapsed f n bits).trace)
    (hmsg : .read .idxStream i len' ∈ (runSignMsg g elapsed' f n bits').trace) : False := by
  have hlt : i < n := ((runSignKey_safe hf bits).read hkey).2 rfl
  have hle : n ≤ i := ((runSignMsg_safe hf bits').read hmsg).2 rfl
  omega

end Experiments

/-! ## The null sessions -/

/-- A null session that fails before its first call, or a safe run. -/
def SafeNull (n : ℕ) (x : Traced Event (Except String RawSamples × σ × σ)) : Prop :=
  Ends (fun t out => match out.1 with
    | .error _ => t = []
    | .ok raw => raw.samples.length = n ∧ t.countP Event.isCall = n ∧
      ∀ e ∈ t, e.Safe anywhere) x

/-- The end of a null session: the run, and the next states. -/
theorem SafeRun.safeNull {x : Traced Event (RawSamples × σ)} (h : SafeRun anywhere n x) (rng : σ) :
    SafeNull n (do
      let (raw, bits) ← x
      return (.ok raw, rng, bits)) := by
  refine Traced.ends_bind (h.mono fun t out h' => Traced.ends_pure ?_)
  rwa [List.append_nil]

theorem safeNull_error (e : String) (rng bits : σ) :
    SafeNull n (return (.error e, rng, bits)) :=
  Traced.ends_pure rfl

theorem runNullRr_safe (b : Bindings σ) (elapsed : ℕ → ℕ) (n : ℕ) (rng bits : σ) :
    SafeNull n (runNullRr b elapsed n rng bits) := by
  unfold runNullRr
  cases hprep : prepareNullRr b n rng with
  | mk out rng' =>
    cases out with
    | error e => exact safeNull_error e rng' bits
    | ok f =>
      have ⟨hA, hB, hlen, hidx⟩ := prepareNullRr_sized b n rng f rng' hprep
      refine (measure_ends (fun i cls hi => ?_) bits).safeNull rng'
      refine signPoolsOp_safe f.m0 ?_ hidx hA hB i cls
      show 0 < f.idx.length
      omega

theorem runNullSs_safe (b : Bindings σ) (elapsed : ℕ → ℕ) (n : ℕ) (rng bits : σ) :
    SafeNull n (runNullSs b elapsed n rng bits) := by
  unfold runNullSs
  cases hpool : Gen.collect keyPool (genKeypair b) rng with
  | mk out rng' =>
    cases out with
    | error e => exact safeNull_error e rng' bits
    | ok pool =>
      have hlen := Gen.yields_collect keyPool rng pool rng' hpool
      let rngM := (randomBytes b.prng rng' msgLen).2
      have hdrawn : (nullSsIndexPairs b.prng rngM n keyPool).1 =
        indexPairs (randomBytes b.prng rngM (n * 2)).1 n keyPool := rfl
      rcases indexPairs_wellFormed (length_randomBytes b.prng rngM (n * 2))
        (by decide : 1 ≤ keyPool) with ⟨pairs, hpairs, hpairsLen, hidx⟩
      refine Traced.ends_bind (Traced.ends_ofOption (hdrawn.trans hpairs) ?_)
      refine (measure_ends (fun i cls hi => ?_) bits).safeNull _
      exact nullSsOp_safe _ (by omega) hidx hlen i cls

/-! ## The property of the runners -/

/-- `f` was prepared for `n` samples. -/
def Prepared (b : Bindings σ) (n : ℕ) (f : Fixtures) : Prop :=
  ∃ rng rng', prepare b n rng = (.ok f, rng')

/-- What the experiments on `f` promise.  A safe run has `n` samples from `n` calls, with every read
in range; `firstHalf` and `secondHalf` say which entries of the stream it reads. -/
structure RunnersSafe (g : Prng σ) (n : ℕ) (f : Fixtures) : Prop where
  signKey : ∀ elapsed bits, SafeRun (firstHalf n) n (runSignKey g elapsed f n bits)
  signKk : ∀ elapsed pair bits, pair < kkPairs →
    SafeRun anywhere n (runSignKk g elapsed f pair n bits)
  /-- With a pair that does not exist no closure is called. -/
  signKkMissing : ∀ elapsed pair bits, kkPairs ≤ pair →
    (runSignKk g elapsed f pair n bits).result = none ∧
      (runSignKk g elapsed f pair n bits).trace.countP Event.isCall = 0
  signAaPair : ∀ elapsed pair bits,
    SafeRun anywhere n (runSignAaPair g elapsed pair f.msgs n bits)
  signAa : ∀ elapsed bits, SafeRun anywhere n (runSignAa g elapsed f n bits)
  signRr : ∀ elapsed bits, SafeRun anywhere n (runSignRr g elapsed f n bits)
  signMsg : ∀ elapsed bits, SafeRun (secondHalf n) n (runSignMsg g elapsed f n bits)
  verifyCtrl : ∀ elapsed bits, SafeRun anywhere n (runVerifyCtrl g elapsed f n bits)
  keygen : ∀ elapsed bits, SafeRun anywhere n (runKeygen g elapsed f n bits)
  disjoint : ∀ elapsed elapsed' bits bits' i len len',
    .read .idxStream i len ∈ (runSignKey g elapsed f n bits).trace →
    .read .idxStream i len' ∈ (runSignMsg g elapsed' f n bits').trace → False

theorem Sized.runnersSafe {f : Fixtures} (hf : Sized n f) (g : Prng σ) : RunnersSafe g n f where
  signKey _ bits := runSignKey_safe hf bits
  signKk _ _ bits hpair := runSignKk_safe hf hpair bits
  signKkMissing _ _ bits hpair := runSignKk_missing hf hpair bits
  signAaPair _ pair bits := runSignAaPair_safe hf pair bits
  signAa _ bits := runSignAa_safe hf bits
  signRr _ bits := runSignRr_safe hf bits
  signMsg _ bits := runSignMsg_safe hf bits
  verifyCtrl _ bits := runVerifyCtrl_safe hf bits
  keygen _ bits := runKeygen_safe hf bits
  disjoint _ _ _ _ _ _ _ hkey hmsg := streams_disjoint hf hkey hmsg

/-- The tables are as long as the closures need, and every runner is safe on them. -/
structure IndexSafe (b : Bindings σ) (n : ℕ) : Prop where
  sized : ∀ f, Prepared b n f → Sized n f
  runners : ∀ f, Prepared b n f → RunnersSafe b.prng n f
  nullRr : ∀ elapsed rng bits, SafeNull n (runNullRr b elapsed n rng bits)
  nullSs : ∀ elapsed rng bits, SafeNull n (runNullSs b elapsed n rng bits)

theorem index_safety (b : Bindings σ) (n : ℕ) : IndexSafe b n := by
  have hsized : ∀ f, Prepared b n f → Sized n f := by
    intro f ⟨rng, rng', hrun⟩
    exact prepare_sized b n rng f rng' hrun
  exact {
    sized := hsized
    runners := fun f hf => (hsized f hf).runnersSafe b.prng
    nullRr := fun elapsed rng bits => runNullRr_safe b elapsed n rng bits
    nullSs := fun elapsed rng bits => runNullSs_safe b elapsed n rng bits }

/-- A private key of the header that the signer wants. -/
def sampleKey : Privkey := ⟨List.replicate Falcon.privkeySize 0x5A, List.length_replicate⟩

/-- A library that draws zeros and never fails. -/
def sampleBindings : Bindings Unit where
  prng := ⟨fun _ n => (Falcon.Core.zeroKey n, ())⟩
  keygen _ := (.ok (sampleKey, Falcon.Core.zeroKey _), ())
  lib := .ofFalcon (fun _ _ _ => 0) fun _ _ => .ok []

theorem sample_index_safety :
    ∃ f, Prepared sampleBindings 1 f ∧ Sized 1 f ∧ RunnersSafe sampleBindings.prng 1 f := by
  obtain ⟨f, hf⟩ : ∃ f, Prepared sampleBindings 1 f := ⟨_, (), (), rfl⟩
  have hsafe := index_safety sampleBindings 1
  exact ⟨f, hf, hsafe.sized f hf, hsafe.runners f hf⟩

end Trelyan.Ct
