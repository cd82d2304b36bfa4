import Mathlib.Data.Finmap
import Trelyan.Lib.BigEndian

/-!
# Typed maps over a flat box store

An AVM application owns one flat store of boxes, each a byte-string name and
a byte-string value.  Algorand Python lays typed maps over it: a `BoxMap`
names the box of a key by a fixed prefix followed by the encoded key, and
stores the encoded value.  Several maps share the store, so a write through
one of them must not be seen through another.

A `BoxMap` here carries the two facts that make it lawful: keys have
distinct encodings, and a value that was encoded decodes to itself.  From
these the usual map laws follow.  `Disjoint` says that two maps have
different prefixes of one length, from which it follows that they never name
the same box.

The store is Mathlib's `Finmap`, so it is finite by construction and two
stores are equal as soon as every lookup agrees.
-/

namespace Trelyan

/-- The boxes of one application: a finite map from names to contents. -/
abbrev BoxStore := Finmap fun _ : Bytes => Bytes

/-- A typed map laid over the box store. -/
structure BoxMap (K V : Type) where
  keyPrefix : Bytes
  encodeKey : K → Bytes
  encodeKey_injective : Function.Injective encodeKey
  encode : V → Bytes
  decode : Bytes → Option V
  decode_encode : ∀ v, decode (encode v) = some v

namespace BoxMap

variable {K V K' V' : Type}

/-- The name of the box that holds the value of `key`. -/
def name (m : BoxMap K V) (key : K) : Bytes := m.keyPrefix ++ m.encodeKey key

/-- `key in map`: the box exists, whatever it holds. -/
def contains (m : BoxMap K V) (boxes : BoxStore) (key : K) : Bool :=
  (boxes.lookup (m.name key)).isSome

/-- `map[key]`: the decoded contents of the box. -/
def get (m : BoxMap K V) (boxes : BoxStore) (key : K) : Option V :=
  (boxes.lookup (m.name key)).bind m.decode

/-- `map[key] = v`: the compiled code deletes the box and creates it again
with the new contents, which replaces it. -/
def put (m : BoxMap K V) (boxes : BoxStore) (key : K) (v : V) : BoxStore :=
  boxes.insert (m.name key) (m.encode v)

/-- The number of boxes that carry the prefix of the map. -/
def count (m : BoxMap K V) (boxes : BoxStore) : Nat :=
  (boxes.keys.filter (m.keyPrefix <+: ·)).card

theorem name_inj (m : BoxMap K V) {key key' : K} : m.name key = m.name key' ↔ key = key' := by
  constructor
  · intro h
    exact m.encodeKey_injective (List.append_cancel_left h)
  · rintro rfl
    rfl

@[simp] theorem get_empty (m : BoxMap K V) (key : K) : m.get ∅ key = none := by
  simp [get]

@[simp] theorem contains_empty (m : BoxMap K V) (key : K) : m.contains ∅ key = false := by
  simp [contains]

@[simp] theorem count_empty (m : BoxMap K V) : m.count ∅ = 0 := by
  simp [count]

/-! ## Writes seen through the same map -/

@[simp] theorem get_put_self (m : BoxMap K V) (boxes : BoxStore) (key : K) (v : V) :
    m.get (m.put boxes key v) key = some v := by
  simp [get, put, m.decode_encode]

@[simp] theorem contains_put_self (m : BoxMap K V) (boxes : BoxStore) (key : K) (v : V) :
    m.contains (m.put boxes key v) key = true := by
  simp [contains, put]

theorem lookup_put_of_ne (m : BoxMap K V) (boxes : BoxStore) {key : K} {v : V} {n : Bytes}
    (h : n ≠ m.name key) : (m.put boxes key v).lookup n = boxes.lookup n :=
  Finmap.lookup_insert_of_ne _ h

theorem get_put_of_ne (m : BoxMap K V) (boxes : BoxStore) {key key' : K} (v : V)
    (h : key' ≠ key) : m.get (m.put boxes key v) key' = m.get boxes key' := by
  rw [get, lookup_put_of_ne m boxes (mt m.name_inj.mp h), get]

theorem contains_put_of_ne (m : BoxMap K V) (boxes : BoxStore) {key key' : K} (v : V)
    (h : key' ≠ key) : m.contains (m.put boxes key v) key' = m.contains boxes key' := by
  rw [contains, lookup_put_of_ne m boxes (mt m.name_inj.mp h), contains]

/-! ## Writes seen through another map -/

/-- The prefixes of the two maps have one length and differ, so the maps
never name the same box. -/
def Disjoint (m : BoxMap K V) (m' : BoxMap K' V') : Prop :=
  m.keyPrefix.length = m'.keyPrefix.length ∧ m.keyPrefix ≠ m'.keyPrefix

theorem Disjoint.symm {m : BoxMap K V} {m' : BoxMap K' V'} (h : m.Disjoint m') :
    m'.Disjoint m :=
  ⟨h.1.symm, h.2.symm⟩

theorem Disjoint.not_prefix_name {m : BoxMap K V} {m' : BoxMap K' V'} (h : m.Disjoint m')
    (key' : K') : ¬ m.keyPrefix <+: m'.name key' := by
  intro h
  rcases h with ⟨rest, hrest⟩
  exact h.2 (List.append_inj_left hrest h.1)

theorem Disjoint.name_ne {m : BoxMap K V} {m' : BoxMap K' V'} (h : m.Disjoint m') (key : K)
    (key' : K') : m.name key ≠ m'.name key' := by
  intro heq
  exact h.not_prefix_name key' ⟨m.encodeKey key, heq⟩

theorem get_put_of_disjoint {m : BoxMap K V} {m' : BoxMap K' V'} (h : m.Disjoint m')
    (boxes : BoxStore) (key : K) (key' : K') (v' : V') :
    m.get (m'.put boxes key' v') key = m.get boxes key := by
  rw [get, lookup_put_of_ne m' boxes (h.name_ne key key'), get]

theorem contains_put_of_disjoint {m : BoxMap K V} {m' : BoxMap K' V'} (h : m.Disjoint m')
    (boxes : BoxStore) (key : K) (key' : K') (v' : V') :
    m.contains (m'.put boxes key' v') key = m.contains boxes key := by
  rw [contains, lookup_put_of_ne m' boxes (h.name_ne key key'), contains]

/-! ## Counting boxes -/

theorem keys_put (m : BoxMap K V) (boxes : BoxStore) (key : K) (v : V) :
    (m.put boxes key v).keys = insert (m.name key) boxes.keys := by
  ext n
  simp [put, Finmap.mem_keys]

/-- A write to a new key adds one box. -/
theorem count_put_of_fresh (m : BoxMap K V) (boxes : BoxStore) (key : K) (v : V)
    (h : m.contains boxes key = false) : m.count (m.put boxes key v) = m.count boxes + 1 := by
  have hpre : m.keyPrefix <+: m.name key := List.prefix_append _ _
  have hfresh : m.name key ∉ boxes.keys := by
    rw [Finmap.mem_keys, ← Finmap.lookup_isSome]
    simpa [contains] using h
  rw [count, keys_put, Finset.filter_insert, if_pos hpre, Finset.card_insert_of_notMem, count]
  exact fun hmem => hfresh (Finset.mem_of_mem_filter _ hmem)

/-- A write to a key that has a box replaces it. -/
theorem count_put_of_contains (m : BoxMap K V) (boxes : BoxStore) (key : K) (v : V)
    (h : m.contains boxes key = true) : m.count (m.put boxes key v) = m.count boxes := by
  have hmem : m.name key ∈ boxes.keys := by
    rw [Finmap.mem_keys, ← Finmap.lookup_isSome]
    exact h
  rw [count, keys_put, Finset.insert_eq_of_mem hmem, count]

/-- A write through a disjoint map is not counted. -/
theorem count_put_of_disjoint {m : BoxMap K V} {m' : BoxMap K' V'} (h : m.Disjoint m')
    (boxes : BoxStore) (key' : K') (v' : V') :
    m.count (m'.put boxes key' v') = m.count boxes := by
  rw [count, keys_put, Finset.filter_insert, if_neg (h.not_prefix_name key'), count]

end BoxMap

end Trelyan
