import Mathlib.Data.FinEnum
import Mathlib.Data.Fintype.Vector
import Trelyan.Contract.Types
import Trelyan.Lib.Balanced

/-!
# The index streams of a `null-ss` session

Both classes of a `null-ss` session sign with keys of one pool, each by its own
stream of indices, and `null_ss_index_pairs` cuts the two streams out of one buffer
of random bytes.  The session is a null only if the streams are independent: with
equal indices it would compare one key with itself.

`null_streams` says what the function does to a buffer, and from this what it does
to a uniform buffer.  The law is exact because the pool length of the program, 32,
divides the 256 values of a byte.
-/

namespace Trelyan.Ct

open Contract (FixedBytes)

/-! ## The generator -/

/-- `Shake256Context` and `prng_extract`: a buffer of the length asked for, and the next state. -/
structure Prng (σ : Type) where
  extract : σ → (n : ℕ) → FixedBytes n × σ

variable {σ : Type}

/-- `random_bytes`. -/
def randomBytes (g : Prng σ) (rng : σ) (n : ℕ) : Bytes × σ :=
  let (v, rng) := g.extract rng n
  (v.bytes, rng)

@[simp] theorem length_randomBytes (g : Prng σ) (rng : σ) (n : ℕ) :
    (randomBytes g rng n).1.length = n :=
  (g.extract rng n).1.length_eq

/-! ## The index pairs -/

/-- Number of keys in a pool. -/
def keyPool : ℕ := 32

/-- The remainder of unsigned machine numbers; a divisor of zero is a panic. -/
def checkedRem (n d : ℕ) : Option ℕ := if d = 0 then none else some (n % d)

/-- The pair of indices at `k`; `none` is a panic. -/
def indexPair (bytes : Bytes) (samples poolLen k : ℕ) : Option (ℕ × ℕ) := do
  let a ← checkedRem (← bytes[k]?).toNat poolLen
  let b ← checkedRem (← bytes[samples + k]?).toNat poolLen
  return (a, b)

def indexPairs (bytes : Bytes) (samples poolLen : ℕ) : Option (List (ℕ × ℕ)) :=
  (List.range samples).mapM (indexPair bytes samples poolLen)

/-- `null_ss_index_pairs`.  The length `samples * 2` cannot overflow in a run that gets the
buffer. -/
def nullSsIndexPairs (g : Prng σ) (rng : σ) (samples poolLen : ℕ) :
    Option (List (ℕ × ℕ)) × σ :=
  let (bytes, rng) := randomBytes g rng (samples * 2)
  (indexPairs bytes samples poolLen, rng)

variable {bytes bytes' : Bytes} {n p k : ℕ}

@[simp] theorem checkedRem_of_pos (h : 1 ≤ p) (k : ℕ) : checkedRem k p = some (k % p) :=
  if_neg (by omega)

/-- The indices that a stream of bytes stands for. -/
def residues (p : ℕ) (bytes : Bytes) : List ℕ := bytes.map fun b => b.toNat % p

theorem residues_lt (h : 1 ≤ p) (bytes : Bytes) : ∀ i ∈ residues p bytes, i < p := by
  intro i hi
  rcases List.mem_map.mp hi with ⟨b, -, rfl⟩
  exact Nat.mod_lt _ h

theorem mapM_range_eq_some {α : Type} {f : ℕ → Option α} (l : List α)
    (h : ∀ k, (hk : k < l.length) → f k = some l[k]) :
    (List.range l.length).mapM f = some l := by
  induction l using List.reverseRecOn with
  | nil => rfl
  | append_singleton l a ih =>
    have hinit : (List.range l.length).mapM f = some l := by
      apply ih
      intro k hk
      rw [h k (by simp; omega), List.getElem_append_left hk]
    have hlast : f l.length = some a := by
      rw [h l.length (by simp)]
      simp
    rw [List.length_append, List.length_singleton, List.range_succ, List.mapM_append, hinit]
    simp [hlast]

/-- The pairs join the residues of the first half of the buffer to those of the second. -/
theorem indexPairs_eq (hlen : bytes.length = n * 2) (hp : 1 ≤ p) :
    indexPairs bytes n p =
      some ((residues p (bytes.take n)).zip (residues p (bytes.drop n))) := by
  have hzip : ((residues p (bytes.take n)).zip (residues p (bytes.drop n))).length = n := by
    simp only [residues, List.length_zip, List.length_map, List.length_take, List.length_drop]
    omega
  have h := mapM_range_eq_some ((residues p (bytes.take n)).zip (residues p (bytes.drop n)))
    (f := indexPair bytes n p) ?_
  · rwa [hzip] at h
  · intro k hk
    rw [hzip] at hk
    have hfirst : k < bytes.length := by omega
    have hsecond : n + k < bytes.length := by omega
    simp [indexPair, residues, hp, hfirst, hsecond]

theorem length_residues_take (hlen : bytes.length = n * 2) :
    (residues p (bytes.take n)).length = n := by
  simp only [residues, List.length_map, List.length_take]
  omega

theorem length_residues_drop (hlen : bytes.length = n * 2) :
    (residues p (bytes.drop n)).length = n := by
  simp only [residues, List.length_map, List.length_drop]
  omega

/-- The stream of class 0. -/
def firsts (out : Option (List (ℕ × ℕ))) : Option (List ℕ) := out.map (·.map Prod.fst)

/-- The stream of class 1. -/
def seconds (out : Option (List (ℕ × ℕ))) : Option (List ℕ) := out.map (·.map Prod.snd)

theorem firsts_indexPairs (hlen : bytes.length = n * 2) (hp : 1 ≤ p) :
    firsts (indexPairs bytes n p) = some (residues p (bytes.take n)) := by
  rw [indexPairs_eq hlen hp]
  refine congrArg some (List.map_fst_zip ?_)
  rw [length_residues_take hlen, length_residues_drop hlen]

theorem seconds_indexPairs (hlen : bytes.length = n * 2) (hp : 1 ≤ p) :
    seconds (indexPairs bytes n p) = some (residues p (bytes.drop n)) := by
  rw [indexPairs_eq hlen hp]
  refine congrArg some (List.map_snd_zip ?_)
  rw [length_residues_take hlen, length_residues_drop hlen]

theorem indexPairs_wellFormed (hlen : bytes.length = n * 2) (hp : 1 ≤ p) :
    ∃ pairs, indexPairs bytes n p = some pairs ∧ pairs.length = n ∧
      ∀ x ∈ pairs, x.1 < p ∧ x.2 < p := by
  refine ⟨_, indexPairs_eq hlen hp, ?_, ?_⟩
  · rw [List.length_zip, length_residues_take hlen, length_residues_drop hlen, Nat.min_self]
  · intro x hx
    have hmem := List.of_mem_zip hx
    exact ⟨residues_lt hp _ _ hmem.1, residues_lt hp _ _ hmem.2⟩

/-! ## The law of the streams -/

/-- A byte as a number below `8 * 32`. -/
def byteEquiv : UInt8 ≃ Fin (8 * 32) where
  toFun := UInt8.toFin
  invFun := UInt8.ofFin
  left_inv b := by simp
  right_inv i := by simp

/-- The key of the pool that a byte names. -/
def keyIndex (b : UInt8) : Fin 32 := (byteEquiv b).modNat

/-- Each key is named by eight bytes. -/
theorem keyIndex_balanced : Balanced keyIndex 8 := (Balanced.modNat 8 32).comp_equiv byteEquiv

/-- Two halves make a buffer. -/
def joinHalves (n : ℕ) : (Fin n → UInt8) × (Fin n → UInt8) ≃ List.Vector UInt8 (n * 2) :=
  (Fin.appendEquiv n n).trans <|
    ((finCongr (Nat.mul_two n).symm).arrowCongr (Equiv.refl UInt8)).trans
      (Equiv.vectorEquivFin UInt8 (n * 2)).symm

theorem joinHalves_toList (n : ℕ) (x : (Fin n → UInt8) × (Fin n → UInt8)) :
    (joinHalves n x).toList = List.ofFn x.1 ++ List.ofFn x.2 := by
  rw [← List.ofFn_fin_append, List.ofFn_congr (Nat.mul_two n).symm]
  exact List.Vector.toList_ofFn _

/-- The two streams of key indices that a buffer stands for. -/
def streams (n : ℕ) (buffer : List.Vector UInt8 (n * 2)) : (Fin n → Fin 32) × (Fin n → Fin 32) :=
  Prod.map (fun x i => keyIndex (x i)) (fun x i => keyIndex (x i)) ((joinHalves n).symm buffer)

theorem streams_balanced (n : ℕ) : Balanced (streams n) (8 ^ (2 * n)) := by
  have hhalf : Balanced (fun (x : Fin n → UInt8) i => keyIndex (x i)) (8 ^ n) := by
    have h := keyIndex_balanced.pi (ι := Fin n)
    rwa [Fintype.card_fin] at h
  have hpair := (hhalf.prodMap hhalf).comp_equiv (joinHalves n).symm
  rwa [← pow_add, ← Nat.two_mul] at hpair

/-- Two sequences as one sequence of pairs. -/
def pairList {n : ℕ} (first second : Fin n → Fin 32) : List (ℕ × ℕ) :=
  List.ofFn fun k => ((first k : ℕ), (second k : ℕ))

theorem pairList_eq_zip {n : ℕ} (first second : Fin n → Fin 32) :
    pairList first second =
      (List.ofFn fun k => (first k : ℕ)).zip (List.ofFn fun k => (second k : ℕ)) := by
  apply List.ext_getElem
  · simp [pairList]
  · intro k h1 h2
    simp [pairList]

theorem pairList_inj {n : ℕ} {x y : (Fin n → Fin 32) × (Fin n → Fin 32)} :
    pairList x.1 x.2 = pairList y.1 y.2 ↔ x = y := by
  constructor
  · intro h
    have hfun := List.ofFn_injective h
    ext k
    · exact congrArg Prod.fst (congrFun hfun k)
    · exact congrArg Prod.snd (congrFun hfun k)
  · intro h
    rw [h]

/-- The function computes the two streams of the buffer. -/
theorem indexPairs_buffer (n : ℕ) (buffer : List.Vector UInt8 (n * 2)) :
    indexPairs buffer.toList n keyPool =
      some (pairList (streams n buffer).1 (streams n buffer).2) := by
  rcases (joinHalves n).surjective buffer with ⟨x, rfl⟩
  have htake : (joinHalves n x).toList.take n = List.ofFn x.1 := by
    rw [joinHalves_toList, List.take_left']
    exact List.length_ofFn
  have hdrop : (joinHalves n x).toList.drop n = List.ofFn x.2 := by
    rw [joinHalves_toList, List.drop_left']
    exact List.length_ofFn
  rw [indexPairs_eq (joinHalves n x).toList_length (by decide), htake, hdrop, pairList_eq_zip]
  unfold streams residues
  rw [List.map_ofFn, List.map_ofFn, Equiv.symm_apply_apply]
  rfl

theorem card_buffers (n : ℕ) (first second : Fin n → Fin 32) :
    Nat.card {buffer : List.Vector UInt8 (n * 2) //
      indexPairs buffer.toList n keyPool = some (pairList first second)} = 8 ^ (2 * n) := by
  rw [← streams_balanced n (first, second)]
  apply Nat.card_congr
  apply Equiv.subtypeEquivRight
  intro buffer
  rw [indexPairs_buffer, Option.some.injEq]
  exact pairList_inj (y := (first, second))

/-- A stream of indices drawn uniformly and independently of everything else. -/
noncomputable def uniformStream (n : ℕ) : PMF (Fin n → Fin 32) := PMF.uniformOfFintype _

theorem law_of_indexPairs (n : ℕ) :
    (PMF.uniformOfFintype (List.Vector UInt8 (n * 2))).map
        (fun buffer => indexPairs buffer.toList n keyPool) =
      (uniformStream n).bind fun first =>
        (uniformStream n).map fun second => some (pairList first second) := by
  have hfun : (fun buffer : List.Vector UInt8 (n * 2) => indexPairs buffer.toList n keyPool) =
      (fun x => some (pairList x.1 x.2)) ∘ streams n := funext (indexPairs_buffer n)
  rw [hfun, ← PMF.map_comp, (streams_balanced n).map_uniform, uniform_prod, PMF.map_bind]
  simp only [PMF.map_comp]
  rfl

/-! ## The property of the streams -/

/-- What `null_ss_index_pairs` promises for `n` samples. -/
structure NullStreams (n : ℕ) : Prop where
  /-- The call draws `2n` bytes and computes the pairs from them alone. -/
  drawn : ∀ (σ : Type) (g : Prng σ) (rng : σ) (p : ℕ), ∃ bytes : Bytes, bytes.length = n * 2 ∧
    randomBytes g rng (n * 2) = (bytes, (nullSsIndexPairs g rng n p).2) ∧
    (nullSsIndexPairs g rng n p).1 = indexPairs bytes n p
  wellFormed : ∀ (p : ℕ) (bytes : Bytes), 1 ≤ p → bytes.length = n * 2 →
    ∃ pairs, indexPairs bytes n p = some pairs ∧ pairs.length = n ∧
      ∀ x ∈ pairs, x.1 < p ∧ x.2 < p
  /-- Two buffers with the same first half give the same stream of class 0. -/
  first : ∀ (p : ℕ) (bytes bytes' : Bytes), 1 ≤ p → bytes.length = n * 2 →
    bytes'.length = n * 2 → bytes.take n = bytes'.take n →
    firsts (indexPairs bytes n p) = firsts (indexPairs bytes' n p)
  /-- Two buffers with the same last half give the same stream of class 1. -/
  second : ∀ (p : ℕ) (bytes bytes' : Bytes), 1 ≤ p → bytes.length = n * 2 →
    bytes'.length = n * 2 → bytes.drop n = bytes'.drop n →
    seconds (indexPairs bytes n p) = seconds (indexPairs bytes' n p)
  /-- Every pair of streams is produced by the same number of buffers. -/
  count : ∀ first second : Fin n → Fin 32,
    Nat.card {buffer : List.Vector UInt8 (n * 2) //
      indexPairs buffer.toList n keyPool = some (pairList first second)} = 8 ^ (2 * n)
  /-- A uniform buffer gives two independent uniform streams. -/
  law : (PMF.uniformOfFintype (List.Vector UInt8 (n * 2))).map
      (fun buffer => indexPairs buffer.toList n keyPool) =
    (uniformStream n).bind fun first =>
      (uniformStream n).map fun second => some (pairList first second)

theorem null_streams (n : ℕ) : NullStreams n where
  drawn _ g rng p := ⟨(randomBytes g rng (n * 2)).1, length_randomBytes g rng _, rfl, rfl⟩
  wellFormed _ _ hp hlen := indexPairs_wellFormed hlen hp
  first p bytes bytes' hp hlen hlen' htake := by
    rw [firsts_indexPairs hlen hp, firsts_indexPairs hlen' hp, htake]
  second p bytes bytes' hp hlen hlen' hdrop := by
    rw [seconds_indexPairs hlen hp, seconds_indexPairs hlen' hp, hdrop]
  count := card_buffers n
  law := law_of_indexPairs n

end Trelyan.Ct
