import Mathlib.Algebra.GroupWithZero.Nat
import Mathlib.Data.List.Basic

/-!
# Terminated records

A sequence of records, each followed by one terminator, when the records may
hold terminators themselves.

The text and the number of terminators in each record determine the records
(`terminated_injOn`); the text alone does so for records that hold none, as
does the text together with the number of records if one of the two sequences
holds none (`counts_eq_of_not_mem`).  Two sequences have the same text if they
are the same when both are cut at every terminator (`terminated_eq_iff`).
-/

namespace Trelyan.Lines

variable {α : Type} [BEq α] [LawfulBEq α] {c : α}

/-- The records, each followed by the terminator. -/
def terminated (c : α) (records : List (List α)) : List α := records.flatMap fun r => r ++ [c]

/-- The records, cut at every terminator. -/
def pieces (c : α) (records : List (List α)) : List (List α) :=
  records.flatMap fun r => r.splitOn c

/-- How many terminators each record holds. -/
def counts (c : α) (records : List (List α)) : List Nat := records.map (List.count c)

omit [BEq α] [LawfulBEq α] in
@[simp] theorem terminated_nil : terminated c [] = [] := rfl

omit [BEq α] [LawfulBEq α] in
@[simp] theorem terminated_cons (r : List α) (records : List (List α)) :
    terminated c (r :: records) = r ++ c :: terminated c records := by
  simp [terminated]

/-- A record ends at the terminator that it has as many in front of as it holds. -/
theorem record_eq_of_count_eq {r r' s s' : List α} (hcount : r.count c = r'.count c)
    (h : r ++ c :: s = r' ++ c :: s') : r = r' := by
  -- If the one goes on where the other ends, it goes on with the terminator.
  have hend : ∀ {d s s' : List α}, d.count c = 0 → c :: s = d ++ c :: s' → d = [] := by
    intro d s s' hd h
    cases d with
    | nil => rfl
    | cons a d =>
      have ha : c = a := (List.cons.inj h).1
      rw [← ha, List.count_cons_self] at hd
      omega
  rcases List.append_eq_append_iff.mp h with ⟨d, rfl, hd⟩ | ⟨d, rfl, hd⟩
  · rw [List.count_append] at hcount
    rw [hend (by omega) hd, List.append_nil]
  · rw [List.count_append] at hcount
    rw [hend (by omega) hd, List.append_nil]

theorem terminated_injOn {xs ys : List (List α)} (hcounts : counts c xs = counts c ys)
    (h : terminated c xs = terminated c ys) : xs = ys := by
  induction xs generalizing ys with
  | nil =>
    cases ys with
    | nil => rfl
    | cons y ys => cases hcounts
  | cons x xs ih =>
    cases ys with
    | nil => cases hcounts
    | cons y ys =>
      have hcount : x.count c = y.count c := (List.cons.inj hcounts).1
      have hrest : counts c xs = counts c ys := (List.cons.inj hcounts).2
      rw [terminated_cons, terminated_cons] at h
      have hxy := record_eq_of_count_eq hcount h
      rw [hxy] at h ⊢
      rw [ih hrest (List.cons.inj (List.append_cancel_left h)).2]

theorem count_terminated (xs : List (List α)) :
    (terminated c xs).count c = (counts c xs).sum + xs.length := by
  induction xs with
  | nil => rfl
  | cons x xs ih =>
    have hsum : (counts c (x :: xs)).sum = x.count c + (counts c xs).sum := List.sum_cons
    rw [terminated_cons, List.count_append, List.count_cons_self, ih, hsum, List.length_cons]
    omega

/-- As many records without a terminator can only be read as themselves. -/
theorem counts_eq_of_not_mem {xs ys : List (List α)} (hlen : xs.length = ys.length)
    (hxs : ∀ x ∈ xs, c ∉ x) (h : terminated c xs = terminated c ys) :
    counts c xs = counts c ys := by
  have hzero : ∀ n ∈ counts c xs, n = 0 := by
    intro n hn
    obtain ⟨x, hx, rfl⟩ := List.mem_map.mp hn
    exact List.count_eq_zero.mpr (hxs x hx)
  have hsum : (counts c xs).sum = (counts c ys).sum := by
    have hcount := congrArg (List.count c) h
    rw [count_terminated, count_terminated] at hcount
    omega
  rw [List.sum_eq_zero_iff_forall_eq_nat.mpr hzero] at hsum
  have hlen' : (counts c xs).length = (counts c ys).length := by simpa [counts] using hlen
  rw [List.eq_replicate_of_mem hzero, hlen', eq_comm, List.eq_replicate_iff]
  exact ⟨rfl, List.sum_eq_zero_iff_forall_eq_nat.mp hsum.symm⟩

theorem splitOn_terminated (xs : List (List α)) :
    (terminated c xs).splitOn c = pieces c xs ++ [[]] := by
  induction xs with
  | nil => simp [pieces]
  | cons x xs ih =>
    rw [terminated_cons, List.splitOn_append_cons_self, ih, ← List.append_assoc]
    rfl

theorem terminated_eq_iff {xs ys : List (List α)} :
    terminated c xs = terminated c ys ↔ pieces c xs = pieces c ys := by
  constructor
  · intro h
    have hsplit := splitOn_terminated (c := c) xs
    rw [h, splitOn_terminated] at hsplit
    exact (List.append_cancel_right hsplit).symm
  · intro h
    have hsplit : (terminated c xs).splitOn c = (terminated c ys).splitOn c := by
      rw [splitOn_terminated, splitOn_terminated, h]
    have hjoin : ∀ s : List α, [c].intercalate (s.splitOn c) = s :=
      fun _ => List.intercalate_splitOn c
    rw [← hjoin (terminated c xs), hsplit, hjoin]

end Trelyan.Lines
