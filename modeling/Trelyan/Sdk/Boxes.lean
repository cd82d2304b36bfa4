import Trelyan.Sdk.Message
import Trelyan.Contract.Footprint

/-!
# The box names of the SDK

A call on chain must name the boxes that it reads and writes before it runs.
The SDK computes the names in `sdk/src/trelyan_pq/message.py`, from the cell
id alone, and a call that touches any other box fails.

`boxes_independent` says that the names are right and why cells do not
interfere.  The names of the SDK are those of the contract, all distinct.
`box_refs` covers every call on the cell and is exact for an `inscribe` that
succeeds.  A call leaves the boxes of every other cell as they were, and calls
on distinct cells can be exchanged.
-/

namespace Trelyan

open Py Contract

namespace Sdk

/-- `committed_pubkey_box_name`: `b"k_" + cell_key(cell_id)`. -/
def committedPubkeyBoxName (cellId : Value) : Except Error Bytes := do
  let key ← cellKey cellId
  .ok ([0x6b, 0x5f] ++ key)

/-- `controlling_owner_box_name`: `b"o_" + cell_key(cell_id)`. -/
def controllingOwnerBoxName (cellId : Value) : Except Error Bytes := do
  let key ← cellKey cellId
  .ok ([0x6f, 0x5f] ++ key)

/-- `inscription_box_name`: `b"i_" + cell_key(cell_id)`. -/
def inscriptionBoxName (cellId : Value) : Except Error Bytes := do
  let key ← cellKey cellId
  .ok ([0x69, 0x5f] ++ key)

/-- `box_refs`. -/
def boxRefs (cellId : Value) : Except Error (List Bytes) := do
  let k ← committedPubkeyBoxName cellId
  let o ← controllingOwnerBoxName cellId
  let i ← inscriptionBoxName cellId
  .ok [k, o, i]

theorem cellKey_toNat (c : UInt64) : cellKey (.int c.toNat) = .ok (itob c) :=
  cellKey_eq_ok.mpr ⟨_, rfl, inUint64_toNat c, rfl⟩

/-- The SDK names the boxes as the contract does. -/
theorem boxNames_eq (c : UInt64) :
    committedPubkeyBoxName (.int c.toNat) = .ok (boxName .committedPubkey c) ∧
      controllingOwnerBoxName (.int c.toNat) = .ok (boxName .controllingOwner c) ∧
      inscriptionBoxName (.int c.toNat) = .ok (boxName .inscription c) := by
  refine ⟨?_, ?_, ?_⟩
  · rw [committedPubkeyBoxName, cellKey_toNat]
    rfl
  · rw [controllingOwnerBoxName, cellKey_toNat]
    rfl
  · rw [inscriptionBoxName, cellKey_toNat]
    rfl

theorem boxRefs_eq (c : UInt64) :
    boxRefs (.int c.toNat) =
      .ok [boxName .committedPubkey c, boxName .controllingOwner c, boxName .inscription c] := by
  rcases boxNames_eq c with ⟨hk, ho, hi⟩
  rw [boxRefs, hk, ho, hi]
  rfl

theorem mem_boxRefs {c : UInt64} {refs : List Bytes} (h : boxRefs (.int c.toNat) = .ok refs)
    (n : Bytes) : n ∈ refs ↔ n ∈ cellBoxes c := by
  rw [boxRefs_eq] at h
  cases h
  constructor
  · intro hn
    simp only [List.mem_cons, List.not_mem_nil, or_false] at hn
    rcases hn with rfl | rfl | rfl
    · exact mem_cellBoxes .committedPubkey c
    · exact mem_cellBoxes .controllingOwner c
    · exact mem_cellBoxes .inscription c
  · intro hn
    rcases hn with ⟨kind, rfl⟩
    cases kind <;> simp

end Sdk

/-- The names of the boxes are distinct and the SDK knows them, `box_refs`
names what a call touches, and calls on distinct cells do not interfere except
that they share the 1024 slots. -/
theorem boxes_independent :
    (∀ (kind kind' : BoxKind) (c c' : UInt64),
      boxName kind c = boxName kind' c' → kind = kind' ∧ c = c') ∧
    (∀ c : UInt64,
      Sdk.committedPubkeyBoxName (.int c.toNat) = .ok (boxName .committedPubkey c) ∧
      Sdk.controllingOwnerBoxName (.int c.toNat) = .ok (boxName .controllingOwner c) ∧
      Sdk.inscriptionBoxName (.int c.toNat) = .ok (boxName .inscription c)) ∧
    (∀ (net : Network) (ctx : Context) (m : Method) (app : AppData),
      runMethod net ctx app m =
          ((m.programAt net ctx app).run app.boxes).map
            (fun r => app.advance m.registrations r.2) ∧
      ∃ refs, Sdk.boxRefs (.int m.cell.toNat) = .ok refs ∧
        (∀ n ∈ (m.programAt net ctx app).touched app.boxes, n ∈ refs) ∧
        ∀ artifactHash sig uri, m = .inscribe m.cell artifactHash sig uri →
          (execute net ctx m app).1 = true →
          ∀ n ∈ refs, n ∈ (m.programAt net ctx app).touched app.boxes) ∧
    (∀ (net : Network) (ctx : Context) (m : Method) (app : AppData) (c : UInt64),
      c ≠ m.cell → ∀ kind, (execute net ctx m app).2.boxes.lookup (boxName kind c) =
        app.boxes.lookup (boxName kind c)) ∧
    ∀ (net : Network) (ctx ctx' : Context) (m m' : Method) (app : AppData),
      m.cell ≠ m'.cell →
      (Commute net ctx ctx' m m' app ↔ ¬ Contend net ctx ctx' m m' app) := by
  refine ⟨fun kind kind' c c' => boxName_inj.mp, Sdk.boxNames_eq, ?_,
    fun net ctx m app c h kind => execute_frame net ctx m app h kind,
    fun net ctx ctx' m m' app h => commute_iff h⟩
  intro net ctx m app
  refine ⟨runMethod_eq net ctx app m, _, Sdk.boxRefs_eq m.cell, ?_, ?_⟩
  · intro n hn
    exact (Sdk.mem_boxRefs (Sdk.boxRefs_eq m.cell) n).mpr
      (m.program_within net ctx app.admin app.hasRoom app.boxes n hn)
  · intro artifactHash sig uri hm hok n hn
    rw [hm] at hok ⊢
    have hguard : InscribeGuard net ctx m.cell artifactHash sig.native uri.native app := by
      unfold execute at hok
      split at hok
      · rename_i app' hrun
        exact (inscribe_eq_ok.mp hrun).1
      · cases hok
    exact inscribeProgram_touches hguard n ((Sdk.mem_boxRefs (Sdk.boxRefs_eq m.cell) n).mp hn)

end Trelyan
