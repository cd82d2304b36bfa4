import Mathlib.Data.List.Sort
import Mathlib.Order.Bounds.Basic

/-!
# Order statistics by counting

The value of rank `k` of a list is the least element that at least `k` elements of
the list do not exceed (`ranked`).  This needs no order of the list, and elements
that occur several times count as often as they occur.  `isLeast_mergeSort` finds
the value of rank `i + 1` at index `i` of the sorted list.
-/

namespace Trelyan.OrderStat

variable {α : Type} [LinearOrder α] {xs ys l : List α} {k k' i : ℕ} {u v : α}

/-- The elements that at least `k` elements do not exceed. -/
def ranked (xs : List α) (k : ℕ) : Set α := {v | v ∈ xs ∧ k ≤ xs.countP (· ≤ v)}

theorem mem_ranked : v ∈ ranked xs k ↔ v ∈ xs ∧ k ≤ xs.countP (· ≤ v) :=
  Iff.rfl

theorem ranked_anti (h : k ≤ k') : ranked xs k' ⊆ ranked xs k :=
  fun _ hv => ⟨hv.1, h.trans hv.2⟩

theorem ranked_perm (h : xs.Perm ys) : ranked xs k = ranked ys k := by
  ext v
  rw [mem_ranked, mem_ranked, h.mem_iff, h.countP_eq]

/-- The value of a greater rank is not smaller. -/
theorem rank_mono (h : k ≤ k') (hu : IsLeast (ranked xs k) u) (hv : IsLeast (ranked xs k') v) :
    u ≤ v :=
  hv.mono hu (ranked_anti h)

/-- Every element is at most the value whose rank is the length. -/
theorem le_of_rank_length (h : v ∈ ranked xs xs.length) (hu : u ∈ xs) : u ≤ v := by
  have hcount : xs.countP (· ≤ v) = xs.length := le_antisymm List.countP_le_length h.2
  simpa using List.countP_eq_length.mp hcount u hu

/-! ## Sorted lists -/

theorem succ_le_countP_getElem (hl : l.SortedLE) (hi : i < l.length) :
    i + 1 ≤ l.countP (· ≤ l[i]) := by
  have hall : (l.take (i + 1)).countP (· ≤ l[i]) = (l.take (i + 1)).length := by
    rw [List.countP_eq_length]
    intro x hx
    rcases List.mem_take_iff_getElem.mp hx with ⟨j, hj, rfl⟩
    exact decide_eq_true (hl.getElem_le_getElem_of_le (by omega))
  have hlen : (l.take (i + 1)).length = i + 1 := by
    rw [List.length_take]
    omega
  rw [← hlen, ← hall]
  exact (List.take_sublist _ _).countP_le

/-- What is below the element at index `i` stands before it. -/
theorem countP_le_of_lt_getElem (hl : l.SortedLE) (hi : i < l.length) (hv : v < l[i]) :
    l.countP (· ≤ v) ≤ i := by
  have hdrop : (l.drop i).countP (· ≤ v) = 0 := by
    rw [List.countP_eq_zero]
    intro x hx
    rcases List.mem_drop_iff_getElem.mp hx with ⟨j, hj, rfl⟩
    have hle : l[i] ≤ l[i + j] := hl.getElem_le_getElem_of_le (by omega)
    simpa using hv.trans_le hle
  calc l.countP (· ≤ v) = (l.take i ++ l.drop i).countP (· ≤ v) := by rw [List.take_append_drop]
    _ = (l.take i).countP (· ≤ v) := by rw [List.countP_append, hdrop, Nat.add_zero]
    _ ≤ (l.take i).length := List.countP_le_length
    _ ≤ i := List.length_take_le i l

theorem isLeast_getElem (hl : l.SortedLE) (hi : i < l.length) :
    IsLeast (ranked l (i + 1)) l[i] := by
  constructor
  · exact ⟨List.getElem_mem hi, succ_le_countP_getElem hl hi⟩
  · intro v hv
    by_contra hlt
    have hcount := countP_le_of_lt_getElem hl hi (not_le.mp hlt)
    have hrank := hv.2
    omega

theorem isLeast_mergeSort (h : xs.mergeSort[i]? = some v) : IsLeast (ranked xs (i + 1)) v := by
  rcases List.getElem?_eq_some_iff.mp h with ⟨hi, rfl⟩
  rw [← ranked_perm (List.mergeSort_perm xs _)]
  exact isLeast_getElem List.sortedLE_mergeSort hi

end Trelyan.OrderStat
