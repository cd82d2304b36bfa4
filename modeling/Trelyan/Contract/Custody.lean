import Trelyan.Contract.Invariant

/-!
# Custody of a registered cell

`register_cell` trusts the balance of an asset because of checks it makes
once: a single indivisible unit, and no manager, freeze or clawback address.
From the rules of the ledger it follows that nobody can seize the unit or
change the parameters (`Trelyan.Asa.safeCustody_iff`).

That nobody can be frozen out does not follow.  `register_cell` does not read
`default_frozen`, and an asset that freezes holdings by default opens every
holding frozen but that of its creator.  With the freeze address cleared,
nothing unfreezes them again.  `custody_iff` says which registered cells are
safe: those whose asset opens holdings unfrozen and has no frozen holding when
it is registered.
-/

namespace Trelyan.Contract

open Asa Atomic

/-- Somebody other than the creator can opt in. -/
theorem exists_other_account (creator : Address) : ∃ b : Address, b ≠ 0 ∧ b ≠ creator := by
  by_cases h : sampleAdmin = creator
  · exact ⟨sampleOwner, by decide, h ▸ by decide⟩
  · exact ⟨sampleAdmin, by decide, h⟩

/-- What a registration finds about its asset. -/
theorem exec_registerCell {net : Network} {s s' : Chain} (hs : Inv net s) {call : AppCall}
    {cell : UInt64} {owner : Address} {pubkey : DynamicBytes}
    (hm : Method.decode call.appArgs = .ok (.registerCell cell owner pubkey))
    (hexec : exec net (.appCall call) s = some s') :
    s'.ledger = s.ledger ∧ ∃ p, s.ledger.params cell = some p ∧ p.total = 1 ∧ p.Sealed := by
  cases exec_effect hs.pristine hexec with
  | registered _ hm' hguard =>
    rw [hm] at hm'
    cases hm'
    obtain ⟨p, hp, htotal, -, -, hsealed⟩ := hguard.asset
    exact ⟨rfl, p, hp, htotal, hsealed⟩
  | inscribed _ hm' => rw [hm] at hm'; cases hm'
  | ownerUpdated _ hm' => rw [hm] at hm'; cases hm'
  | read _ hm' => rw [hm] at hm'; cases hm'

/-- The custody of a cell that `register_cell` accepts is safe in every later
state of the ledger exactly when its asset opens holdings unfrozen and none of
them is frozen at the registration. -/
theorem custody_iff (net : Network) (s s' : Chain) (hs : Reachable net s) (call : AppCall)
    (cell : UInt64) (owner : Address) (pubkey : DynamicBytes)
    (hm : Method.decode call.appArgs = .ok (.registerCell cell owner pubkey))
    (hexec : exec net (.appCall call) s = some s') :
    (∀ l', Later s'.ledger l' → SafeCustody l' cell) ↔
      (∀ p, s.ledger.params cell = some p → p.defaultFrozen = false) ∧
        NoneFrozen s.ledger cell := by
  obtain ⟨hledger, p, hp, htotal, hsealed⟩ := exec_registerCell hs.inv hm hexec
  rw [hledger, safeCustody_iff hs.inv.ledger hp hsealed htotal (exists_other_account p.creator),
    hp]
  simp

/-- The registration of the sample cell. -/
def sampleRegister : AppCall :=
  noOpCall sampleNetwork sampleAdmin
    (Method.registerCell 5 sampleOwner samplePubkey).appArgs

theorem sampleRegister_decode : Method.decode sampleRegister.appArgs =
    .ok (.registerCell 5 sampleOwner samplePubkey) :=
  Method.decode_appArgs (.registerCell 5 sampleOwner samplePubkey)

/-- Before the registration only the creator holds the sample asset. -/
theorem sampleSetup_holding (defaultFrozen : Bool) (a : Address) :
    (sampleChain (sampleSetup defaultFrozen)).ledger.holding a 5 =
      if a = sampleAdmin ∧ (5 : UInt64) = 5 then some ⟨1, false⟩ else none := rfl

theorem sampleSetup_params (defaultFrozen : Bool) :
    (sampleChain (sampleSetup defaultFrozen)).ledger.params 5 =
      some ⟨1, 0, defaultFrozen, sampleAdmin, 0, 0, 0⟩ := rfl

theorem sampleRegister_succeeds (defaultFrozen : Bool) :
    ∃ s', exec sampleNetwork (.appCall sampleRegister)
      (sampleChain (sampleSetup defaultFrozen)) = some s' := by
  refine Option.isSome_iff_exists.mp ?_
  cases defaultFrozen <;> decide +kernel

theorem sample_custody :
    ∃ s', exec sampleNetwork (.appCall sampleRegister) (sampleChain (sampleSetup false)) =
        some s' ∧ ∀ l', Later s'.ledger l' → SafeCustody l' 5 := by
  obtain ⟨s', hs'⟩ := sampleRegister_succeeds false
  refine ⟨s', hs', (custody_iff sampleNetwork (sampleChain (sampleSetup false)) s' ⟨_, rfl⟩
    sampleRegister 5 sampleOwner samplePubkey sampleRegister_decode hs').mpr ⟨?_, ?_⟩⟩
  · intro p hp
    rw [sampleSetup_params] at hp
    cases hp
    rfl
  · intro a h hh
    rw [sampleSetup_holding] at hh
    split at hh
    · cases hh
      rfl
    · cases hh

/-- `register_cell` accepts an asset that freezes holdings by default.  The
owner of the sample cell opts in and gets a holding that is frozen for
good. -/
theorem register_accepts_freezable :
    ¬ ∀ s s' call cell owner pubkey, Reachable sampleNetwork s →
      Method.decode (AppCall.appArgs call) = .ok (.registerCell cell owner pubkey) →
      exec sampleNetwork (.appCall call) s = some s' →
      ∀ l', Later s'.ledger l' → SafeCustody l' cell := by
  intro h
  obtain ⟨s', hs'⟩ := sampleRegister_succeeds true
  have hreachable : Reachable sampleNetwork (sampleChain (sampleSetup true)) := ⟨_, rfl⟩
  have hledger := (exec_registerCell hreachable.inv sampleRegister_decode hs').1
  have hsafe := h (sampleChain (sampleSetup true)) s' sampleRegister 5 sampleOwner samplePubkey
    hreachable sampleRegister_decode hs'
  rw [hledger] at hsafe
  obtain ⟨l', hoptIn, hholding⟩ := exec_optIn_succeeds (b := sampleOwner) (by decide)
    (sampleSetup_params true) (by rw [sampleSetup_holding, if_neg (by decide)])
  have hfrozen := (hsafe l' (.single ⟨_, hoptIn⟩)).unfrozen sampleOwner _ hholding
  exact Bool.noConfusion hfrozen

end Trelyan.Contract
