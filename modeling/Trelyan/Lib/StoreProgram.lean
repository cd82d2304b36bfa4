import Mathlib.Data.Finmap
import Trelyan.Lib.Except

/-!
# Programs over a key-value store

A program that reads and writes the entries of one store, and may fail.  It
is a tree: a read continues with the entry that it found, a write continues
in the new store.  `run` is its meaning and `touched` the keys that a run
reads or writes.

A program is `Within` a set of keys when no run leaves the set, from any
store.  From this alone follow the two facts that make separate parts of a
store independent.

* `run_frame`: the entries outside the set are left as they were.
* `run_congr`: what the program does depends on the entries inside the set
  only.

`exec_comm` puts them together: two programs within disjoint sets can be run
in either order.  A program that fails leaves the store as it was, so the
order does not matter for failing runs either.
-/

namespace Trelyan

/-- A program over a store with keys `K` and values `V`. -/
inductive StoreProgram (K V ε α : Type) where
  | ret (a : α)
  | fail (e : ε)
  | read (key : K) (next : Option V → StoreProgram K V ε α)
  | write (key : K) (v : V) (next : StoreProgram K V ε α)

namespace StoreProgram

variable {K V ε α β : Type}

/-- Run `p`, then what its result says. -/
def bind (p : StoreProgram K V ε α) (f : α → StoreProgram K V ε β) : StoreProgram K V ε β :=
  match p with
  | ret a => f a
  | fail e => fail e
  | read key next => read key fun v => (next v).bind f
  | write key v next => write key v (next.bind f)

instance : Monad (StoreProgram K V ε) where
  pure := ret
  bind := bind

/-- The entry of `key`. -/
def get (key : K) : StoreProgram K V ε (Option V) := read key ret

/-- Replace the entry of `key`. -/
def put (key : K) (v : V) : StoreProgram K V ε Unit := write key v (ret ())

/-- A check: go on if `p` holds, and fail with `e` otherwise. -/
def check (p : Prop) [Decidable p] (e : ε) : StoreProgram K V ε Unit :=
  if p then ret () else fail e

/-- The entries. -/
abbrev Store (K V : Type) := Finmap fun _ : K => V

variable [DecidableEq K]

/-- The result of a program and the store that it leaves. -/
def run (p : StoreProgram K V ε α) (s : Store K V) : Except ε (α × Store K V) :=
  match p with
  | ret a => .ok (a, s)
  | fail e => .error e
  | read key next => (next (s.lookup key)).run s
  | write key v next => next.run (s.insert key v)

/-- The keys that a run reads or writes, in the order in which it does. -/
def touched (p : StoreProgram K V ε α) (s : Store K V) : List K :=
  match p with
  | ret _ => []
  | fail _ => []
  | read key next => key :: (next (s.lookup key)).touched s
  | write key v next => key :: next.touched (s.insert key v)

/-! ## Running the parts of a program -/

@[simp] theorem run_pure (a : α) (s : Store K V) :
    run (pure a : StoreProgram K V ε α) s = .ok (a, s) := rfl

@[simp] theorem touched_pure (a : α) (s : Store K V) :
    touched (pure a : StoreProgram K V ε α) s = [] := rfl

/-- A sequence runs its parts in order. -/
theorem run_bind (p : StoreProgram K V ε α) (f : α → StoreProgram K V ε β) (s : Store K V) :
    run (p >>= f) s = (run p s) >>= fun r => run (f r.1) r.2 := by
  change run (p.bind f) s = _
  induction p generalizing s with
  | ret a => rfl
  | fail e => rfl
  | read key next ih => exact ih (s.lookup key) s
  | write key v next ih => exact ih (s.insert key v)

@[simp] theorem run_fail (e : ε) (s : Store K V) :
    run (fail e : StoreProgram K V ε α) s = .error e := rfl

theorem run_get_bind (key : K) (f : Option V → StoreProgram K V ε α) (s : Store K V) :
    run (get key >>= f) s = run (f (s.lookup key)) s := rfl

theorem run_check_bind (p : Prop) [Decidable p] (e : ε) (f : Unit → StoreProgram K V ε α)
    (s : Store K V) : run (check p e >>= f) s = require p e >>= fun _ => run (f ()) s := by
  unfold check require
  split <;> rfl

/-- What a sequence touches. -/
theorem touched_bind (p : StoreProgram K V ε α) (f : α → StoreProgram K V ε β)
    (s : Store K V) :
    touched (p >>= f) s = touched p s ++
      match run p s with
      | .ok r => touched (f r.1) r.2
      | .error _ => [] := by
  change touched (p.bind f) s = _
  induction p generalizing s with
  | ret a => rfl
  | fail e => rfl
  | read key next ih => exact congrArg (List.cons key) (ih (s.lookup key) s)
  | write key v next ih => exact congrArg (List.cons key) (ih (s.insert key v))

theorem touched_get_bind (key : K) (f : Option V → StoreProgram K V ε α) (s : Store K V) :
    touched (get key >>= f) s = key :: touched (f (s.lookup key)) s := rfl

theorem touched_check_bind {p : Prop} [Decidable p] (h : p) (e : ε)
    (f : Unit → StoreProgram K V ε α) (s : Store K V) :
    touched (check p e >>= f) s = touched (f ()) s := by
  unfold check
  rw [if_pos h]
  rfl

/-! ## Programs that stay within a set of keys -/

/-- No run of `p` reads or writes a key outside `S`. -/
def Within (p : StoreProgram K V ε α) (S : Set K) : Prop :=
  ∀ s, ∀ key ∈ p.touched s, key ∈ S

namespace Within

variable {S : Set K} {p : StoreProgram K V ε α} {f : α → StoreProgram K V ε β}

theorem pure (a : α) : (Pure.pure a : StoreProgram K V ε α).Within S := by
  intro s key h
  cases h

theorem fail (e : ε) : (fail e : StoreProgram K V ε α).Within S := by
  intro s key h
  cases h

theorem check (q : Prop) [Decidable q] (e : ε) :
    (check q e : StoreProgram K V ε Unit).Within S := by
  unfold StoreProgram.check
  split
  · exact pure ()
  · exact fail e

theorem get {key : K} (h : key ∈ S) : (get key : StoreProgram K V ε (Option V)).Within S := by
  intro s key' hmem
  rw [List.mem_singleton.mp hmem]
  exact h

theorem put {key : K} (h : key ∈ S) (v : V) :
    (put key v : StoreProgram K V ε Unit).Within S := by
  intro s key' hmem
  rw [List.mem_singleton.mp hmem]
  exact h

/-- A sequence stays within a set when its parts do. -/
theorem bind (hp : p.Within S) (hf : ∀ a, (f a).Within S) : (p >>= f).Within S := by
  intro s key hmem
  rw [touched_bind, List.mem_append] at hmem
  rcases hmem with hmem | hmem
  · exact hp s key hmem
  · split at hmem
    · exact hf _ _ key hmem
    · cases hmem

end Within

/-- Two stores have the same entries in `S`. -/
def AgreeOn (S : Set K) (s s' : Store K V) : Prop := ∀ key ∈ S, s.lookup key = s'.lookup key

theorem AgreeOn.insert {S : Set K} {s s' : Store K V} (h : AgreeOn S s s') (key : K) (v : V) :
    AgreeOn S (s.insert key v) (s'.insert key v) := by
  intro key' hkey'
  by_cases heq : key' = key
  · rw [heq, Finmap.lookup_insert, Finmap.lookup_insert]
  · rw [Finmap.lookup_insert_of_ne _ heq, Finmap.lookup_insert_of_ne _ heq]
    exact h key' hkey'

/-- A run leaves the entries that it does not touch. -/
theorem run_frame {p : StoreProgram K V ε α} {s s' : Store K V} {a : α}
    (h : run p s = .ok (a, s')) {key : K} (hkey : key ∉ touched p s) :
    s'.lookup key = s.lookup key := by
  induction p generalizing s with
  | ret b =>
    cases h
    rfl
  | fail e => cases h
  | read key' next ih => exact ih _ h fun hmem => hkey (List.mem_cons_of_mem _ hmem)
  | write key' v next ih =>
    have hne : key ≠ key' := by
      intro heq
      exact hkey (heq ▸ List.mem_cons_self)
    calc s'.lookup key = (s.insert key' v).lookup key :=
          ih h fun hmem => hkey (List.mem_cons_of_mem _ hmem)
      _ = s.lookup key := Finmap.lookup_insert_of_ne _ hne

/-- Stores that agree where the run reads give the same result, and still
agree afterwards. -/
theorem run_congr {p : StoreProgram K V ε α} {S : Set K} {s s' : Store K V}
    (hS : ∀ key ∈ touched p s, key ∈ S) (h : AgreeOn S s s') :
    (∃ e, run p s = .error e ∧ run p s' = .error e) ∨
      ∃ a t t', run p s = .ok (a, t) ∧ run p s' = .ok (a, t') ∧ AgreeOn S t t' := by
  induction p generalizing s s' with
  | ret a => exact Or.inr ⟨a, s, s', rfl, rfl, h⟩
  | fail e => exact Or.inl ⟨e, rfl, rfl⟩
  | read key next ih =>
    have hkey : s.lookup key = s'.lookup key := h key (hS key List.mem_cons_self)
    have hnext : ∀ key' ∈ touched (next (s.lookup key)) s, key' ∈ S :=
      fun key' hmem => hS key' (List.mem_cons_of_mem _ hmem)
    unfold run
    rw [← hkey]
    exact ih _ hnext h
  | write key v next ih =>
    have hnext : ∀ key' ∈ touched next (s.insert key v), key' ∈ S :=
      fun key' hmem => hS key' (List.mem_cons_of_mem _ hmem)
    exact ih hnext (h.insert key v)

/-! ## Two programs in either order -/

/-- Run `p` as a transaction: the result, and the store afterwards, which is
the old one if `p` failed. -/
def exec (p : StoreProgram K V ε α) (s : Store K V) : Except ε α × Store K V :=
  match run p s with
  | .ok (a, s') => (.ok a, s')
  | .error e => (.error e, s)

theorem exec_frame {p : StoreProgram K V ε α} {S : Set K} (hp : p.Within S) (s : Store K V)
    {key : K} (hkey : key ∉ S) : (exec p s).2.lookup key = s.lookup key := by
  unfold exec
  split
  · rename_i hrun
    exact run_frame hrun fun hmem => hkey (hp s key hmem)
  · rfl

theorem exec_congr {p : StoreProgram K V ε α} {S : Set K} (hp : p.Within S) {s s' : Store K V}
    (h : AgreeOn S s s') : (exec p s).1 = (exec p s').1 ∧ AgreeOn S (exec p s).2 (exec p s').2 := by
  rcases run_congr (hp s) h with ⟨e, hrun, hrun'⟩ | ⟨a, t, t', hrun, hrun', hagree⟩
  · unfold exec
    rw [hrun, hrun']
    exact ⟨rfl, h⟩
  · unfold exec
    rw [hrun, hrun']
    exact ⟨rfl, hagree⟩

/-- Programs within disjoint sets of keys commute: each has the same result in
either order, and the final stores are equal. -/
theorem exec_comm {p : StoreProgram K V ε α} {q : StoreProgram K V ε β} {S T : Set K}
    (hp : p.Within S) (hq : q.Within T) (hdisj : ∀ key ∈ S, key ∉ T) (s : Store K V) :
    (exec p (exec q s).2).1 = (exec p s).1 ∧ (exec q (exec p s).2).1 = (exec q s).1 ∧
      (exec p (exec q s).2).2 = (exec q (exec p s).2).2 := by
  have hS : AgreeOn S (exec q s).2 s := fun key hkey =>
    exec_frame hq s (hdisj key hkey)
  have hT : AgreeOn T (exec p s).2 s := fun key hkey =>
    exec_frame hp s fun hkey' => hdisj key hkey' hkey
  have hpq := exec_congr hp hS
  have hqp := exec_congr hq hT
  refine ⟨hpq.1, hqp.1, Finmap.ext_lookup fun key => ?_⟩
  by_cases hkey : key ∈ S
  · -- Only `p` can change the entry.
    have hkey' : key ∉ T := hdisj key hkey
    rw [hpq.2 key hkey, exec_frame hq _ hkey']
  · rw [exec_frame hp _ hkey]
    by_cases hkey' : key ∈ T
    · rw [hqp.2 key hkey']
    · rw [exec_frame hq _ hkey', exec_frame hq _ hkey', exec_frame hp _ hkey]

end StoreProgram

end Trelyan
