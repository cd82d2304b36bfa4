import Mathlib.Data.List.Basic
import Mathlib.Data.List.Induction
import Mathlib.Data.Nat.Bitwise
import Mathlib.Tactic.Ring

/-!
# Compaction by powers of two

An array has valid and invalid entries, and the valid ones are to be moved to its start, in
their order.  The number of invalid entries before a valid one is the distance that it has
to move.  The passes move it by one bit of this distance each, lowest bit first: pass `p`
swaps the entry with the one `p` places below.

A pass runs upwards over the array.  Before the pass all distances are multiples of `p`, and
behind the loop index they are already multiples of `2 p`.  So if an entry has to move by
`p`, no valid entry can be less than `p` places below it: the entries that it passes are
invalid, the order is kept, and no other distance changes (`PassInv.step`).
-/

namespace Trelyan.Compact

variable {α : Type} {valid : α → Bool}

/-! ## The loops -/

/-- Two entries change places. -/
def swap (a : List α) (i j : Nat) : List α :=
  match a[i]?, a[j]? with
  | some x, some y => (a.set i y).set j x
  | _, _ => a

/-- The body of a pass, with the number of valid entries so far. -/
def moveStep (valid : α → Bool) (p : Nat) (t : List α × Nat) (u : Nat) : List α × Nat :=
  match t.1[u]? with
  | none => t
  | some x =>
    if valid x then
      (if p ≤ u ∧ (u - t.2) &&& p ≠ 0 then swap t.1 (u - p) u else t.1, t.2 + 1)
    else t

/-- One pass. -/
def pass (valid : α → Bool) (p : Nat) (a : List α) : List α :=
  ((List.range a.length).foldl (moveStep valid p) (a, 0)).1

/-- The passes for `p`, `2 p`, .. up to `excess`. -/
def passes (valid : α → Bool) (excess : Nat) : Nat → Nat → List α → List α
  | 0, _, a => a
  | fuel + 1, p, a => if p ≤ excess then passes valid excess fuel (2 * p) (pass valid p a) else a

theorem length_swap (a : List α) (i j : Nat) : (swap a i j).length = a.length := by
  unfold swap
  split
  · rw [List.length_set, List.length_set]
  · rfl

theorem length_moveStep (valid : α → Bool) (p : Nat) (t : List α × Nat) (u : Nat) :
    (moveStep valid p t u).1.length = t.1.length ∧ (moveStep valid p t u).2 ≤ t.2 + 1 := by
  unfold moveStep
  split
  · exact ⟨rfl, Nat.le_succ _⟩
  · split_ifs
    · exact ⟨length_swap _ _ _, le_refl _⟩
    · exact ⟨rfl, le_refl _⟩
    · exact ⟨rfl, Nat.le_succ _⟩

/-! ## Distances -/

/-- The number of invalid entries. -/
def gaps (valid : α → Bool) (l : List α) : Nat := l.countP fun x => !valid x

/-- With `c` invalid entries before the list, every valid entry has a multiple of `d` of them
before it. -/
def Aligned (valid : α → Bool) (d : Nat) : Nat → List α → Prop
  | _, [] => True
  | c, x :: l => if valid x then d ∣ c ∧ Aligned valid d c l else Aligned valid d (c + 1) l

@[simp] theorem aligned_nil (d c : Nat) : Aligned valid d c [] := trivial

theorem aligned_cons {d c : Nat} {x : α} {l : List α} :
    Aligned valid d c (x :: l) ↔
      if valid x then d ∣ c ∧ Aligned valid d c l else Aligned valid d (c + 1) l := Iff.rfl

@[simp] theorem gaps_nil : gaps valid [] = 0 := rfl

theorem gaps_cons (x : α) (l : List α) :
    gaps valid (x :: l) = (if valid x then 0 else 1) + gaps valid l := by
  unfold gaps
  rw [List.countP_cons, Nat.add_comm]
  cases valid x <;> simp

theorem gaps_append (l r : List α) : gaps valid (l ++ r) = gaps valid l + gaps valid r :=
  List.countP_append

/-- Valid and invalid entries make up the list. -/
theorem length_filter_add_gaps (valid : α → Bool) (l : List α) :
    (l.filter valid).length + gaps valid l = l.length := by
  have h := List.length_eq_countP_add_countP (l := l) valid
  rw [← List.countP_eq_length_filter, h]
  simp [gaps]

theorem gaps_of_invalid {l : List α} (h : ∀ x ∈ l, valid x = false) :
    gaps valid l = l.length := by
  unfold gaps
  rw [List.countP_eq_length]
  intro x hx
  rw [h x hx]
  rfl

theorem aligned_append {d c : Nat} {l r : List α} :
    Aligned valid d c (l ++ r) ↔ Aligned valid d c l ∧ Aligned valid d (c + gaps valid l) r := by
  induction l generalizing c with
  | nil => simp [Aligned]
  | cons x l ih =>
    rw [List.cons_append, gaps_cons, aligned_cons, aligned_cons]
    cases valid x with
    | true => simp [ih, and_assoc]
    | false => simp [ih, Nat.add_assoc]

theorem aligned_of_invalid {d c : Nat} {l : List α} (h : ∀ x ∈ l, valid x = false) :
    Aligned valid d c l := by
  induction l generalizing c with
  | nil => exact aligned_nil d c
  | cons x l ih =>
    rw [aligned_cons, h x List.mem_cons_self, if_neg Bool.false_ne_true]
    exact ih fun y hy => h y (List.mem_cons_of_mem x hy)

theorem aligned_one (c : Nat) (l : List α) : Aligned valid 1 c l := by
  induction l generalizing c with
  | nil => exact aligned_nil 1 c
  | cons x l ih =>
    rw [aligned_cons]
    split_ifs
    · exact ⟨Nat.one_dvd c, ih c⟩
    · exact ih (c + 1)

/-- If no distance but zero is left, the valid entries are at the start. -/
theorem eq_filter_append {d : Nat} {l : List α} (hgaps : gaps valid l < d)
    (h : Aligned valid d 0 l) :
    ∃ t, l = l.filter valid ++ t ∧ ∀ x ∈ t, valid x = false := by
  have hrest : ∀ {l : List α} {c : Nat}, 0 < c → c + gaps valid l < d → Aligned valid d c l →
      ∀ x ∈ l, valid x = false := by
    intro l
    induction l with
    | nil => simp
    | cons y l ih =>
      intro c hc hlt hal
      rw [gaps_cons] at hlt
      rw [aligned_cons] at hal
      cases hy : valid y with
      | true =>
        rw [hy, if_pos rfl] at hal
        have hle := Nat.le_of_dvd hc hal.1
        omega
      | false =>
        rw [hy, if_neg Bool.false_ne_true] at hal hlt
        exact List.forall_mem_cons.mpr ⟨hy, ih (by omega) (by omega) hal⟩
  induction l with
  | nil => exact ⟨[], rfl, by simp⟩
  | cons x l ih =>
    rw [gaps_cons] at hgaps
    rw [aligned_cons] at h
    cases hx : valid x with
    | true =>
      rw [hx, if_pos rfl] at h hgaps
      obtain ⟨t, ht, hinvalid⟩ := ih (by omega) h.2
      refine ⟨t, ?_, hinvalid⟩
      rw [List.filter_cons, if_pos hx, List.cons_append, ← ht]
    | false =>
      rw [hx, if_neg Bool.false_ne_true] at h hgaps
      have hall : ∀ y ∈ x :: l, valid y = false :=
        List.forall_mem_cons.mpr ⟨hx, hrest Nat.one_pos hgaps h⟩
      refine ⟨x :: l, ?_, hall⟩
      rw [List.filter_eq_nil_iff.mpr fun y hy => by rw [hall y hy]; exact Bool.false_ne_true]
      rfl

/-! ## One step -/

theorem swap_append (l s r : List α) (x y : α) :
    swap (l ++ x :: s ++ y :: r) l.length (l ++ x :: s).length = l ++ y :: s ++ x :: r := by
  have hx : (l ++ x :: s ++ y :: r)[l.length]? = some x := by simp
  have hy : (l ++ x :: s ++ y :: r)[(l ++ x :: s).length]? = some y := by
    rw [List.getElem?_append_right (le_refl _), Nat.sub_self]
    rfl
  have hlen : (l ++ x :: s).length = (l ++ y :: s).length := by simp
  unfold swap
  rw [hx, hy]
  dsimp only
  rw [List.append_assoc, List.set_append_right _ _ (le_refl _), Nat.sub_self, List.cons_append,
    List.set_cons_zero, ← List.cons_append, ← List.append_assoc, hlen,
    List.set_append_right _ _ (le_refl _), Nat.sub_self, List.set_cons_zero]

/-- A list ends with invalid entries, after a valid one or at its start. -/
theorem exists_invalid_suffix (valid : α → Bool) (l : List α) :
    ∃ l₁ s, l = l₁ ++ s ∧ (∀ x ∈ s, valid x = false) ∧
      ∀ l₂ y, l₁ = l₂ ++ [y] → valid y = true := by
  induction l using List.reverseRecOn with
  | nil => exact ⟨[], [], rfl, by simp, by simp⟩
  | append_singleton l x ih =>
    cases hx : valid x with
    | true =>
      refine ⟨l ++ [x], [], by simp, by simp, ?_⟩
      intro l₂ y heq
      rw [← (List.append_inj' heq rfl).2 |> List.singleton_inj.mp]
      exact hx
    | false =>
      obtain ⟨l₁, s, hl, hs, hlast⟩ := ih
      refine ⟨l₁, s ++ [x], by rw [hl, List.append_assoc], ?_, hlast⟩
      intro y hy
      rcases List.mem_append.mp hy with hy | hy
      · exact hs y hy
      · rw [List.mem_singleton.mp hy]
        exact hx

/-- If an odd multiple of `p` entries is invalid, so are the last `p`. -/
theorem exists_gap {p c : Nat} {l : List α} (hp : 0 < p) (hal : Aligned valid (2 * p) 0 l)
    (hgaps : gaps valid l = 2 * p * c + p) :
    ∃ l₁ s, l = l₁ ++ s ∧ s.length = p ∧ ∀ x ∈ s, valid x = false := by
  obtain ⟨l₁, s, hl, hs, hlast⟩ := exists_invalid_suffix valid l
  have hle : p ≤ s.length := by
    rw [hl, gaps_append, gaps_of_invalid hs] at hgaps
    rcases List.eq_nil_or_concat' l₁ with hnil | ⟨l₂, y, hconcat⟩
    · rw [hnil, gaps_nil] at hgaps
      omega
    · have hy := hlast l₂ y hconcat
      rw [hl, aligned_append, hconcat, aligned_append, aligned_cons, hy, if_pos rfl] at hal
      rw [hconcat, gaps_append, gaps_cons, hy, if_pos rfl, gaps_nil] at hgaps
      obtain ⟨d, hd⟩ := hal.1.2.1
      by_contra hlt
      have h1 : (2 * p * d + s.length) % (2 * p) = s.length := by
        rw [Nat.mul_add_mod, Nat.mod_eq_of_lt (by omega)]
      have h2 : (2 * p * c + p) % (2 * p) = p := by
        rw [Nat.mul_add_mod, Nat.mod_eq_of_lt (by omega)]
      rw [show 2 * p * d + s.length = 2 * p * c + p by omega] at h1
      omega
  refine ⟨l₁ ++ s.take (s.length - p), s.drop (s.length - p), ?_, ?_, ?_⟩
  · rw [List.append_assoc, List.take_append_drop, hl]
  · rw [List.length_drop]
    omega
  · intro x hx
    exact hs x (List.mem_of_mem_drop hx)

/-- Among the multiples of `2^k`, the odd ones have bit `k` set. -/
theorem and_two_pow_ne_zero {k j : Nat} (hj : 2 ^ k ∣ j) (hbit : j &&& 2 ^ k ≠ 0) :
    ∃ c, j = 2 * 2 ^ k * c + 2 ^ k := by
  obtain ⟨q, hq⟩ := hj
  rw [Nat.and_two_pow, Nat.testBit_eq_decide_div_mod_eq, hq,
    Nat.mul_div_cancel_left q (Nat.two_pow_pos k)] at hbit
  have hodd : q % 2 = 1 := by
    by_contra heven
    rw [decide_eq_false heven] at hbit
    simp at hbit
  refine ⟨q / 2, ?_⟩
  rw [hq, show 2 * 2 ^ k * (q / 2) + 2 ^ k = 2 ^ k * (2 * (q / 2) + 1) by ring,
    show 2 * (q / 2) + 1 = q by omega]

/-- The even ones do not. -/
theorem two_mul_dvd {k j : Nat} (hj : 2 ^ k ∣ j) (hbit : j &&& 2 ^ k = 0) : 2 * 2 ^ k ∣ j := by
  obtain ⟨q, hq⟩ := hj
  rw [Nat.and_two_pow, Nat.testBit_eq_decide_div_mod_eq, hq,
    Nat.mul_div_cancel_left q (Nat.two_pow_pos k)] at hbit
  have heven : q % 2 = 0 := by
    by_contra hodd
    rw [decide_eq_true (by omega)] at hbit
    simp at hbit
  refine ⟨q / 2, ?_⟩
  rw [hq, show 2 * 2 ^ k * (q / 2) = 2 ^ k * (2 * (q / 2)) by ring,
    show 2 * (q / 2) = q by omega]

/-- `l` is behind the loop index of pass `p` over `a`, and `r` is still to come. -/
structure PassInv (valid : α → Bool) (p : Nat) (a l r : List α) (v : Nat) : Prop where
  counter : v + gaps valid l = l.length
  done : Aligned valid (2 * p) 0 l
  todo : Aligned valid p (gaps valid l) r
  filter : (l ++ r).filter valid = a.filter valid
  length : (l ++ r).length = a.length

/-- An entry that need not move by `p`. -/
theorem PassInv.stay {p v : Nat} {a l r : List α} {x : α} (h : PassInv valid p a l (x :: r) v)
    (hx : valid x = true → 2 * p ∣ gaps valid l) :
    PassInv valid p a (l ++ [x]) r (if valid x then v + 1 else v) := by
  have hcount := h.counter
  have htodo := aligned_cons.mp h.todo
  have hgaps : gaps valid (l ++ [x]) = gaps valid l + if valid x then 0 else 1 := by
    rw [gaps_append, gaps_cons, gaps_nil, Nat.add_zero]
  have hsame : (l ++ [x]) ++ r = l ++ x :: r := by simp
  constructor
  · rw [hgaps, List.length_append, List.length_singleton]
    split_ifs <;> omega
  · rw [aligned_append, aligned_cons, Nat.zero_add]
    refine ⟨h.done, ?_⟩
    split_ifs with hvalid
    · exact ⟨hx hvalid, aligned_nil _ _⟩
    · exact aligned_nil _ _
  · rw [hgaps]
    split_ifs at htodo ⊢
    · exact htodo.2
    · exact htodo
  · rw [hsame]
    exact h.filter
  · rw [hsame]
    exact h.length

/-- An entry that has to move by `p` is swapped with an invalid one. -/
theorem PassInv.move {p v c : Nat} {a l r : List α} {x : α} (hp : 0 < p)
    (h : PassInv valid p a l (x :: r) v) (hx : valid x = true)
    (hgaps : gaps valid l = 2 * p * c + p) :
    p ≤ l.length ∧ ∃ l', swap (l ++ x :: r) (l.length - p) l.length = l' ++ r ∧
      l'.length = l.length + 1 ∧ PassInv valid p a l' r (v + 1) := by
  obtain ⟨counter, done, todo, filter, length⟩ := h
  rw [aligned_cons, hx, if_pos rfl] at todo
  obtain ⟨l₁, s, hl, hs, hinvalid⟩ := exists_gap hp done hgaps
  have hle : l.length = l₁.length + p := by rw [hl, List.length_append, hs]
  obtain ⟨y, t, rfl⟩ := List.exists_cons_of_length_pos (l := s) (by omega)
  have hrest : ∀ z ∈ t ++ [y], valid z = false := by
    intro z hz
    apply hinvalid
    simpa [or_comm] using hz
  have hfirst : gaps valid l = gaps valid l₁ + p := by
    rw [hl, gaps_append, gaps_of_invalid hinvalid, hs]
  have hkeep : gaps valid (l₁ ++ x :: (t ++ [y])) = gaps valid l := by
    rw [hfirst, gaps_append, gaps_cons, hx, if_pos rfl, gaps_of_invalid hrest, ← hs]
    simp
  have hlen : (l₁ ++ x :: (t ++ [y])).length = l.length + 1 := by
    rw [hl]
    simp
    omega
  have hfilter : (l₁ ++ x :: (t ++ [y])).filter valid = (l ++ [x]).filter valid := by
    rw [hl, List.append_assoc, List.filter_append, List.filter_append, List.filter_append,
      List.filter_cons, if_pos hx,
      List.filter_eq_nil_iff.mpr fun z hz => Bool.eq_false_iff.mp (hrest z hz),
      List.filter_eq_nil_iff.mpr fun z hz => Bool.eq_false_iff.mp (hinvalid z hz),
      List.nil_append, List.filter_cons, if_pos hx, List.filter_nil]
  refine ⟨by omega, l₁ ++ x :: (t ++ [y]), ?_, hlen, ?_⟩
  · rw [show l.length - p = l₁.length by omega, hl, swap_append]
    simp
  · constructor
    · rw [hkeep, hlen]
      omega
    · rw [hl, aligned_append] at done
      rw [aligned_append, aligned_cons, hx, if_pos rfl, Nat.zero_add]
      refine ⟨done.1, ⟨c, by omega⟩, aligned_of_invalid hrest⟩
    · rw [hkeep]
      exact todo.2
    · rw [List.filter_append, hfilter, ← List.filter_append, ← filter]
      simp
    · rw [← length, List.length_append, hlen, List.length_append, List.length_cons]
      omega

/-- An entry is passed over, or it is swapped with one `p` places below. -/
theorem PassInv.step {k v : Nat} {a l r : List α} {x : α}
    (h : PassInv valid (2 ^ k) a l (x :: r) v) :
    ∃ l' v', moveStep valid (2 ^ k) (l ++ x :: r, v) l.length = (l' ++ r, v') ∧
      l'.length = l.length + 1 ∧ PassInv valid (2 ^ k) a l' r v' := by
  have hentry : (l ++ x :: r)[l.length]? = some x := by simp
  have hcount := h.counter
  have hsame : l ++ x :: r = (l ++ [x]) ++ r := by simp
  have htodo := aligned_cons.mp h.todo
  unfold moveStep
  dsimp only
  rw [hentry, show l.length - v = gaps valid l by omega]
  dsimp only
  cases hx : valid x with
  | false =>
    have hstay := h.stay fun hvalid => absurd hvalid (by rw [hx]; exact Bool.false_ne_true)
    rw [hx] at hstay
    exact ⟨l ++ [x], v, by rw [if_neg Bool.false_ne_true, hsame], by simp, hstay⟩
  | true =>
    rw [hx, if_pos rfl] at htodo
    rw [if_pos rfl]
    by_cases hmove : gaps valid l &&& 2 ^ k ≠ 0
    · obtain ⟨c, hc⟩ := and_two_pow_ne_zero htodo.1 hmove
      obtain ⟨hle, l', hswap, hlen, hinv⟩ := h.move (Nat.two_pow_pos k) hx hc
      exact ⟨l', v + 1, by rw [if_pos ⟨hle, hmove⟩, hswap], hlen, hinv⟩
    · have hstay := h.stay fun _ => two_mul_dvd htodo.1 (not_not.mp hmove)
      rw [hx] at hstay
      exact ⟨l ++ [x], v + 1, by rw [if_neg fun h => hmove h.2, hsame], by simp, hstay⟩

/-! ## The passes -/

/-- A pass keeps the valid entries and their order, and leaves distances that are multiples of
`2 p`. -/
theorem pass_spec {k : Nat} {a : List α} (h : Aligned valid (2 ^ k) 0 a) :
    Aligned valid (2 * 2 ^ k) 0 (pass valid (2 ^ k) a) ∧
      (pass valid (2 ^ k) a).filter valid = a.filter valid ∧
      (pass valid (2 ^ k) a).length = a.length := by
  have hloop : ∀ (r l : List α) (v : Nat), PassInv valid (2 ^ k) a l r v →
      ∃ l' v', (List.range' l.length r.length).foldl (moveStep valid (2 ^ k)) (l ++ r, v) =
        (l', v') ∧ PassInv valid (2 ^ k) a l' [] v' := by
    intro r
    induction r with
    | nil =>
      intro l v hinv
      exact ⟨l, v, by simp, hinv⟩
    | cons x r ih =>
      intro l v hinv
      obtain ⟨l', v', hstep, hlen, hinv'⟩ := hinv.step
      rw [List.length_cons, List.range'_succ, List.foldl_cons, hstep, ← hlen]
      exact ih l' v' hinv'
  have hstart : PassInv valid (2 ^ k) a [] a 0 :=
    ⟨rfl, aligned_nil _ _, h, rfl, rfl⟩
  obtain ⟨l', v', hfold, hinv⟩ := hloop a [] 0 hstart
  have hpass : pass valid (2 ^ k) a = l' := by
    unfold pass
    rw [List.range_eq_range']
    exact congrArg Prod.fst hfold
  have hfilter := hinv.filter
  have hlength := hinv.length
  rw [List.append_nil] at hfilter hlength
  rw [hpass]
  exact ⟨hinv.done, hfilter, hlength⟩

/-- The passes keep the valid entries and their order, and they move them to the start if not
more than `excess` entries are invalid. -/
theorem passes_spec {excess fuel k : Nat} {a : List α} (h : Aligned valid (2 ^ k) 0 a)
    (hfuel : excess < 2 ^ k + fuel) :
    (passes valid excess fuel (2 ^ k) a).filter valid = a.filter valid ∧
      (passes valid excess fuel (2 ^ k) a).length = a.length ∧
      (gaps valid a ≤ excess → ∃ t, passes valid excess fuel (2 ^ k) a = a.filter valid ++ t ∧
        ∀ x ∈ t, valid x = false) := by
  have hstop : ∀ {k : Nat} {a : List α}, Aligned valid (2 ^ k) 0 a → excess < 2 ^ k →
      (gaps valid a ≤ excess → ∃ t, a = a.filter valid ++ t ∧ ∀ x ∈ t, valid x = false) :=
    fun hal hlt hgaps => eq_filter_append (Nat.lt_of_le_of_lt hgaps hlt) hal
  induction fuel generalizing k a with
  | zero => exact ⟨rfl, rfl, hstop h hfuel⟩
  | succ fuel ih =>
    have hpos := Nat.two_pow_pos k
    have hdouble : 2 * 2 ^ k = 2 ^ (k + 1) := (Nat.pow_succ').symm
    unfold passes
    by_cases hle : 2 ^ k ≤ excess
    · obtain ⟨hal, hfilter, hlength⟩ := pass_spec h
      have hgaps : gaps valid (pass valid (2 ^ k) a) = gaps valid a := by
        have h1 := length_filter_add_gaps valid (pass valid (2 ^ k) a)
        have h2 := length_filter_add_gaps valid a
        rw [hfilter, hlength] at h1
        omega
      rw [hdouble] at hal
      have hrest := ih hal (by omega)
      rw [if_pos hle, hdouble]
      rwa [hfilter, hlength, hgaps] at hrest
    · rw [if_neg hle]
      exact ⟨rfl, rfl, hstop h (by omega)⟩

end Trelyan.Compact
