import Mathlib.Data.List.Perm.Subperm
import Trelyan.Lib.Json

/-!
# Equality of decoded documents

Python's `==` on what `json.loads` returns.  A boolean is a number, an integer
and a float are compared by their exact values, and the order of the entries
of a dictionary does not count.

Inside a list or a dictionary two values also pass when they are the same
object.  The decoder has one object for every `NaN`, so a `NaN` inside a
container equals another, and only a `NaN` that is compared itself does not
(`equal`).

Two dictionaries are equal when they agree at every key (`same_dict_iff`).
That rests on their keys being distinct, which holds of every dictionary that
the decoder returns (`loads_distinctKeys`).
-/

namespace Trelyan.Json

open Py

/-- The value of a number. -/
inductive Number where
  /-- A finite value, times `2 ^ 1074`. -/
  | finite (scaled : Int)
  | infinite (neg : Bool)
  | nan
deriving DecidableEq

/-- The value of a float, by its IEEE 754 bits. -/
def floatNumber (bits : UInt64) : Number :=
  let exponent := bits.toNat / 2 ^ 52 % 2048
  let fraction := bits.toNat % 2 ^ 52
  let neg : Bool := 2 ^ 63 ≤ bits.toNat
  if exponent = 2047 then if fraction = 0 then .infinite neg else .nan
  else
    let mantissa := if exponent = 0 then fraction else fraction + 2 ^ 52
    let n : Nat := mantissa * 2 ^ (max exponent 1 - 1)
    .finite (if neg then -(n : Int) else n)

def number? : Json → Option Number
  | int n => some (.finite (n * 2 ^ 1074))
  | bool b => some (.finite (if b then 2 ^ 1074 else 0))
  | float bits => some (floatNumber bits)
  | _ => none

def isNaN (v : Json) : Bool := v.number? = some .nan

/-- `v is w or v == w` for two values that are not containers. -/
def sameAtom (v w : Json) : Bool :=
  match v.number?, w.number? with
  | some m, some n => m = n
  | _, _ => false

mutual

/-- `v is w or v == w`. -/
def same : Json → Json → Bool
  | null, null => true
  | str s, str t => s = t
  | list xs, list ys => sameItems xs ys
  | dict xs, dict ys => xs.length = ys.length && sameEntries xs ys
  | v, w => sameAtom v w

def sameItems : List Json → List Json → Bool
  | [], [] => true
  | v :: xs, w :: ys => same v w && sameItems xs ys
  | _, _ => false

/-- Every entry of the first dictionary has its partner in the second. -/
def sameEntries : List (Text × Json) → List (Text × Json) → Bool
  | [], _ => true
  | (key, v) :: xs, ys =>
    (match getItem? ys key with
      | some w => same v w
      | none => false) && sameEntries xs ys

end

/-- `v == w`. -/
def equal (v w : Json) : Bool := same v w && !v.isNaN

/-- What two dictionaries have at one key. -/
def sameItem : Option Json → Option Json → Bool
  | none, none => true
  | some v, some w => same v w
  | _, _ => false

/-! ## Keys -/

/-- A dictionary has one entry for each of its keys. -/
def DistinctKeys (entries : List (Text × Json)) : Prop := (entries.map Prod.fst).Nodup

theorem getItem?_cons (key key' : Text) (v : Json) (entries : List (Text × Json)) :
    getItem? ((key', v) :: entries) key =
      if key' = key then some v else getItem? entries key := by
  by_cases h : key' = key <;> simp [getItem?, h]

theorem getItem?_eq_none_iff {entries : List (Text × Json)} {key : Text} :
    getItem? entries key = none ↔ key ∉ entries.map Prod.fst := by
  induction entries with
  | nil => simp [getItem?]
  | cons entry entries ih =>
    obtain ⟨key', v⟩ := entry
    rw [getItem?_cons]
    by_cases h : key' = key
    · simp [h]
    · rw [if_neg h, ih, List.map_cons, List.mem_cons, not_or]
      exact (and_iff_right (Ne.symm h)).symm

theorem mem_iff_getItem? {entries : List (Text × Json)} (h : DistinctKeys entries) {key : Text}
    {v : Json} : (key, v) ∈ entries ↔ getItem? entries key = some v := by
  induction entries with
  | nil => simp [getItem?]
  | cons entry entries ih =>
    obtain ⟨key', v'⟩ := entry
    obtain ⟨hnot, hrest⟩ := List.nodup_cons.mp h
    rw [getItem?_cons, List.mem_cons]
    by_cases hkey : key' = key
    · subst hkey
      have hfresh : (key', v) ∉ entries := by
        intro hmem
        exact hnot (List.mem_map.mpr ⟨(key', v), hmem, rfl⟩)
      simp [hfresh, eq_comm]
    · rw [if_neg hkey, ← ih hrest]
      simp [Ne.symm hkey]

/-- `{k: v for k, v in d.items() if k not in dropped}`. -/
def without (dropped : List Text) (entries : List (Text × Json)) : List (Text × Json) :=
  entries.filter fun entry => entry.1 ∉ dropped

theorem getItem?_without (dropped : List Text) (entries : List (Text × Json)) (key : Text) :
    getItem? (without dropped entries) key =
      if key ∈ dropped then none else getItem? entries key := by
  induction entries with
  | nil => simp [without, getItem?]
  | cons entry entries ih =>
    obtain ⟨key', v⟩ := entry
    have hcons : without dropped ((key', v) :: entries) =
        if key' ∈ dropped then without dropped entries
        else (key', v) :: without dropped entries := by
      by_cases h : key' ∈ dropped <;> simp [without, h]
    rw [hcons, getItem?_cons]
    by_cases hdrop : key' ∈ dropped
    · rw [if_pos hdrop, ih]
      by_cases hkey : key' = key
      · subst hkey
        rw [if_pos hdrop, if_pos hdrop]
      · rw [if_neg hkey]
    · rw [if_neg hdrop, getItem?_cons, ih]
      by_cases hkey : key' = key
      · subst hkey
        rw [if_pos rfl, if_neg hdrop, if_pos rfl]
      · rw [if_neg hkey, if_neg hkey]

theorem DistinctKeys.without {entries : List (Text × Json)} (h : DistinctKeys entries)
    (dropped : List Text) : DistinctKeys (without dropped entries) :=
  List.Nodup.sublist (List.filter_sublist.map _) h

theorem map_fst_setItem (entries : List (Text × Json)) (key : Text) (v : Json) :
    (setItem entries key v).map Prod.fst =
      if key ∈ entries.map Prod.fst then entries.map Prod.fst
      else entries.map Prod.fst ++ [key] := by
  induction entries with
  | nil => simp [setItem]
  | cons entry entries ih =>
    obtain ⟨key', v'⟩ := entry
    by_cases hkey : key' = key
    · simp [setItem, hkey]
    · rw [setItem, if_neg hkey, List.map_cons, ih]
      by_cases hmem : key ∈ entries.map Prod.fst
      · simp [hmem]
      · simp [hmem, Ne.symm hkey]

theorem DistinctKeys.setItem {entries : List (Text × Json)} (h : DistinctKeys entries)
    (key : Text) (v : Json) : DistinctKeys (setItem entries key v) := by
  unfold DistinctKeys
  rw [map_fst_setItem]
  split_ifs with hmem
  · exact h
  · exact List.nodup_append.mpr ⟨h, by simp, by
      intro a ha b hb
      rw [List.mem_singleton.mp hb]
      rintro rfl
      exact hmem ha⟩

theorem dictOf_distinctKeys (pairs : List (Text × Json)) : DistinctKeys (dictOf pairs) := by
  suffices h : ∀ entries, DistinctKeys entries →
      DistinctKeys (pairs.foldl (fun entries pair => setItem entries pair.1 pair.2) entries) by
    exact h [] List.nodup_nil
  induction pairs with
  | nil => exact fun entries h => h
  | cons pair pairs ih => exact fun entries h => ih _ (h.setItem _ _)

/-- Every value that the decoder reads is an atom, a list, or such a dictionary. -/
def Distinct : Json → Prop
  | dict entries => DistinctKeys entries
  | _ => True

theorem finishNumber_distinct (limits : Limits) (neg : Bool) (digits rest : List Char) :
    Returns (fun r => r.1.Distinct) (finishNumber limits neg digits rest) := by
  unfold finishNumber
  split
  · exact returns_map fun _ => trivial
  · split <;> exact returns_ok trivial
  · exact returns_ok trivial

theorem scanNumber_distinct (limits : Limits) (neg : Bool) (s : List Char) :
    Returns (fun r => r.1.Distinct) (scanNumber limits neg s) := by
  unfold scanNumber
  split
  · exact finishNumber_distinct limits neg _ _
  · split
    · exact finishNumber_distinct limits neg _ _
    · exact returns_error _
  · exact returns_error _

theorem scanOnce_distinct (limits : Limits) (depth : Nat) (s : List Char) :
    Returns (fun r => r.1.Distinct) (scanOnce limits depth s) := by
  cases depth with
  | zero =>
    unfold scanOnce
    split <;>
      first
        | exact returns_error _
        | exact returns_ok trivial
        | exact scanNumber_distinct limits _ _
        | exact returns_map fun _ => trivial
  | succ depth =>
    unfold scanOnce
    split
    · exact returns_map fun _ => trivial
    · dsimp only
      split
      · exact returns_ok List.nodup_nil
      · exact returns_map fun _ => dictOf_distinctKeys _
    · dsimp only
      split
      · exact returns_ok trivial
      · exact returns_map fun _ => trivial
    all_goals
      first
        | exact returns_ok trivial
        | exact scanNumber_distinct limits _ _

theorem loads_distinctKeys {limits : Limits} {s : List Char} {entries : List (Text × Json)}
    (h : loads limits s = .ok (.dict entries)) : DistinctKeys entries := by
  suffices hs : Returns Distinct (loads limits s) from hs _ h
  unfold loads
  split
  · exact returns_error _
  · refine returns_bind fun r hr => ?_
    have hscan := scanOnce_distinct limits _ _ r hr
    dsimp only
    split
    · exact returns_ok hscan
    · exact returns_error _

/-! ## Dictionaries -/

theorem sameEntries_iff {xs ys : List (Text × Json)} :
    sameEntries xs ys = true ↔
      ∀ key v, (key, v) ∈ xs → ∃ w, getItem? ys key = some w ∧ same v w = true := by
  induction xs with
  | nil => simp [sameEntries]
  | cons entry xs ih =>
    obtain ⟨key, v⟩ := entry
    rw [sameEntries, Bool.and_eq_true, ih]
    constructor
    · rintro ⟨hhead, htail⟩ key' v' hmem
      rcases List.mem_cons.mp hmem with heq | hmem
      · cases heq
        cases hget : getItem? ys key with
        | none => simp [hget] at hhead
        | some w => exact ⟨w, rfl, by simpa [hget] using hhead⟩
      · exact htail key' v' hmem
    · intro h
      refine ⟨?_, fun key' v' hmem => h key' v' (by simp [hmem])⟩
      obtain ⟨w, hw, hsame⟩ := h key v (by simp)
      rw [hw]
      exact hsame

/-- Two dictionaries are equal when they agree at every key. -/
theorem same_dict_iff {xs ys : List (Text × Json)} (hx : DistinctKeys xs)
    (hy : DistinctKeys ys) :
    same (.dict xs) (.dict ys) = true ↔
      ∀ key, sameItem (getItem? xs key) (getItem? ys key) = true := by
  rw [same, Bool.and_eq_true, decide_eq_true_eq, sameEntries_iff]
  constructor
  · rintro ⟨hlen, hentries⟩ key
    cases hget : getItem? xs key with
    | some v =>
      obtain ⟨w, hw, hsame⟩ := hentries key v ((mem_iff_getItem? hx).mpr hget)
      rw [hw]
      exact hsame
    | none =>
      -- The keys of the first are among those of the second, and they are as many.
      have hsub : xs.map Prod.fst ⊆ ys.map Prod.fst := by
        intro key' hkey'
        obtain ⟨⟨key', v⟩, hmem, rfl⟩ := List.mem_map.mp hkey'
        obtain ⟨w, hw, -⟩ := hentries key' v hmem
        exact List.mem_map.mpr ⟨(key', w), (mem_iff_getItem? hy).mpr hw, rfl⟩
      have hperm : (xs.map Prod.fst).Perm (ys.map Prod.fst) := by
        refine (hx.subperm hsub).perm_of_length_le ?_
        rw [List.length_map, List.length_map]
        omega
      have hnone : getItem? ys key = none := by
        rw [getItem?_eq_none_iff, ← hperm.mem_iff, ← getItem?_eq_none_iff]
        exact hget
      rw [hnone]
      rfl
  · intro h
    have hkeys : ∀ key, key ∈ xs.map Prod.fst ↔ key ∈ ys.map Prod.fst := by
      intro key
      rw [← not_iff_not, ← getItem?_eq_none_iff, ← getItem?_eq_none_iff]
      have hkey := h key
      cases hx' : getItem? xs key <;> cases hy' : getItem? ys key <;>
        simp_all [sameItem]
    have hperm : (xs.map Prod.fst).Perm (ys.map Prod.fst) :=
      (List.perm_ext_iff_of_nodup hx hy).mpr hkeys
    refine ⟨by simpa using hperm.length_eq, fun key v hmem => ?_⟩
    have hkey := h key
    rw [(mem_iff_getItem? hx).mp hmem] at hkey
    cases hget : getItem? ys key with
    | none =>
      rw [hget] at hkey
      cases hkey
    | some w => exact ⟨w, rfl, by rwa [hget] at hkey⟩

end Trelyan.Json
