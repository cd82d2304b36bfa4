import Mathlib.Logic.Relation

/-!
# A ledger of Algorand standard assets

The part of the Algorand ledger that keeps assets: the parameters of every
asset, and for every account and asset the account has opted into, a holding
with an amount and a frozen flag.  Accounts are any type with a zero, which
is the address that nobody controls and that stands for "no address" in the
parameters.

The rules are those of the protocol.

* The manager may replace the manager, freeze and clawback addresses, but an
  address that was cleared stays cleared, and a cleared manager can do
  nothing.  The manager may destroy the asset while the creator holds all of
  it.
* The freeze address sets the frozen flag of a holding.  The clawback address
  moves units out of any holding.
* An opt-in is a transfer of zero units to oneself.  The holding it opens is
  frozen exactly when the asset freezes holdings by default; the holding of
  the creator starts unfrozen.
* A transfer moves units of its sender, and neither holding may be frozen.
  It may also close the holding of the sender: the rest goes to another
  account, past any freeze if that account is the creator.

Amounts are `Nat`.  They are `uint64` on chain, and no amount exceeds the
total of its asset (`Asa.WellFormed`), so no sum wraps.

This file defines the ledger.  `Trelyan.Lib.Asa.Custody` proves what its
rules promise to the holders of an asset.
-/

namespace Trelyan.Asa

/-- The parameters of an asset. -/
structure AssetParams (α : Type) where
  total : Nat
  decimals : Nat
  defaultFrozen : Bool
  creator : α
  manager : α
  freeze : α
  clawback : α
deriving DecidableEq

/-- What an account that opted into an asset holds of it. -/
structure Holding where
  amount : Nat
  frozen : Bool
deriving DecidableEq

/-- The assets, the holdings, and the asset ids handed out so far. -/
structure Ledger (α ι : Type) where
  params : ι → Option (AssetParams α)
  holding : α → ι → Option Holding
  issued : ι → Bool

/-- A transaction that acts on assets. -/
inductive Txn (α ι : Type) where
  | create (sender : α) (asset : ι) (total decimals : Nat) (defaultFrozen : Bool)
      (manager freeze clawback : α)
  | config (sender : α) (asset : ι) (manager freeze clawback : α)
  | destroy (sender : α) (asset : ι)
  | transfer (sender : α) (asset : ι) (amount : Nat) (receiver closeTo : α)
  | clawback (sender : α) (asset : ι) (amount : Nat) (source receiver : α)
  | freeze (sender : α) (asset : ι) (target : α) (frozen : Bool)

/-- The account that authorised the transaction. -/
def Txn.sender {α ι : Type} : Txn α ι → α
  | .create s .. => s
  | .config s .. => s
  | .destroy s .. => s
  | .transfer s .. => s
  | .clawback s .. => s
  | .freeze s .. => s

variable {α ι : Type}

/-! ## Holdings -/

namespace Ledger

/-- The units an account holds.  An account that has not opted in holds
none. -/
def amount (l : Ledger α ι) (a : α) (c : ι) : Nat :=
  match l.holding a c with
  | some h => h.amount
  | none => 0

theorem amount_of_holding {l : Ledger α ι} {a : α} {c : ι} {h : Holding}
    (hh : l.holding a c = some h) : l.amount a c = h.amount := by
  simp [amount, hh]

theorem amount_of_none {l : Ledger α ι} {a : α} {c : ι}
    (hh : l.holding a c = none) : l.amount a c = 0 := by
  simp [amount, hh]

theorem amount_congr {l l' : Ledger α ι} {a : α} {c : ι}
    (hh : l'.holding a c = l.holding a c) : l'.amount a c = l.amount a c := by
  rw [amount, amount, hh]

variable [DecidableEq ι]

/-- Replace the parameters of one asset. -/
def setParams (l : Ledger α ι) (c : ι) (p : Option (AssetParams α)) : Ledger α ι :=
  { l with params := fun c' => if c' = c then p else l.params c' }

theorem params_setParams (l : Ledger α ι) (c : ι) (p : Option (AssetParams α)) (c' : ι) :
    (l.setParams c p).params c' = if c' = c then p else l.params c' := rfl

@[simp] theorem holding_setParams (l : Ledger α ι) (c : ι) (p : Option (AssetParams α)) :
    (l.setParams c p).holding = l.holding := rfl

@[simp] theorem issued_setParams (l : Ledger α ι) (c : ι) (p : Option (AssetParams α)) :
    (l.setParams c p).issued = l.issued := rfl

variable [DecidableEq α]

/-- The ledger before any asset exists. -/
def empty : Ledger α ι := ⟨fun _ => none, fun _ _ => none, fun _ => false⟩

/-- Replace one holding. -/
def setHolding (l : Ledger α ι) (a : α) (c : ι) (h : Option Holding) : Ledger α ι :=
  { l with holding := fun a' c' => if a' = a ∧ c' = c then h else l.holding a' c' }

@[simp] theorem holding_setHolding_self (l : Ledger α ι) (a : α) (c : ι) (h : Option Holding) :
    (l.setHolding a c h).holding a c = h := by
  simp [setHolding]

theorem holding_setHolding (l : Ledger α ι) (a : α) (c : ι) (h : Option Holding) (a' : α)
    (c' : ι) : (l.setHolding a c h).holding a' c' =
      if a' = a ∧ c' = c then h else l.holding a' c' := rfl

@[simp] theorem params_setHolding (l : Ledger α ι) (a : α) (c : ι) (h : Option Holding) :
    (l.setHolding a c h).params = l.params := rfl

@[simp] theorem issued_setHolding (l : Ledger α ι) (a : α) (c : ι) (h : Option Holding) :
    (l.setHolding a c h).issued = l.issued := rfl

/-- The units after one holding was replaced. -/
theorem amount_setHolding_some (l : Ledger α ι) (a : α) (c : ι) (h : Holding) (a' : α) :
    (l.setHolding a c (some h)).amount a' c = if a' = a then h.amount else l.amount a' c := by
  by_cases ha : a' = a <;> simp [amount, holding_setHolding, ha]

end Ledger

/-! ## Transactions -/

variable [DecidableEq α] [DecidableEq ι]

/-- Take `n` units out of a holding.  Zero units are taken without looking at
the holding. -/
def takeOut (l : Ledger α ι) (a : α) (c : ι) (n : Nat) (bypassFreeze : Bool) :
    Option (Ledger α ι) :=
  if n = 0 then some l
  else match l.holding a c with
    | none => none
    | some h =>
      if (h.frozen && !bypassFreeze) = false ∧ n ≤ h.amount then
        some (l.setHolding a c (some { h with amount := h.amount - n }))
      else none

/-- Put `n` units into a holding. -/
def putIn (l : Ledger α ι) (a : α) (c : ι) (n : Nat) (bypassFreeze : Bool) :
    Option (Ledger α ι) :=
  if n = 0 then some l
  else match l.holding a c with
    | none => none
    | some h =>
      if (h.frozen && !bypassFreeze) = false then
        some (l.setHolding a c (some { h with amount := h.amount + n }))
      else none

/-- Move `n` units from `src` to `dst`. -/
def move (l : Ledger α ι) (c : ι) (n : Nat) (src dst : α) (bypassFreeze : Bool) :
    Option (Ledger α ι) :=
  (takeOut l src c n bypassFreeze).bind fun l => putIn l dst c n bypassFreeze

/-- Open a holding, unless there is one already. -/
def optIn (l : Ledger α ι) (a : α) (c : ι) : Option (Ledger α ι) :=
  match l.holding a c with
  | some _ => some l
  | none => (l.params c).map fun p => l.setHolding a c (some ⟨0, p.defaultFrozen⟩)

/-- `a` created `c`, and `c` still exists. -/
def Ledger.isCreator (l : Ledger α ι) (a : α) (c : ι) : Bool :=
  match l.params c with
  | some p => p.creator = a
  | none => false

/-- Send the rest of a holding to `dst` and remove the holding.  The creator
cannot close; a close to the creator passes any freeze. -/
def closeOut (l : Ledger α ι) (src : α) (c : ι) (dst : α) : Option (Ledger α ι) :=
  match l.holding src c with
  | none => none
  | some h =>
    if l.isCreator src c then none
    else (move l c h.amount src dst (l.isCreator dst c)).bind fun l =>
      if l.amount src c = 0 then some (l.setHolding src c none) else none

variable [Zero α]

/-- A field of a reconfiguration: a cleared address stays cleared. -/
def reconfigure (old new : α) : α := if old = 0 then 0 else new

/-- The effect of a transaction. -/
def apply : Txn α ι → Ledger α ι → Option (Ledger α ι)
  | .create sender c total decimals defaultFrozen manager freeze clawback, l =>
    if l.issued c then none
    else
      some { (l.setParams c (some
          { total, decimals, defaultFrozen, creator := sender, manager, freeze, clawback })
          ).setHolding sender c (some ⟨total, false⟩) with
        issued := fun c' => decide (c' = c) || l.issued c' }
  | .config sender c manager freeze clawback, l =>
    match l.params c with
    | none => none
    | some p =>
      if p.manager ≠ 0 ∧ sender = p.manager then
        some (l.setParams c (some { p with
          manager
          freeze := reconfigure p.freeze freeze
          clawback := reconfigure p.clawback clawback }))
      else none
  | .destroy sender c, l =>
    match l.params c with
    | none => none
    | some p =>
      if p.manager ≠ 0 ∧ sender = p.manager ∧ l.amount p.creator c = p.total then
        some ((l.setParams c none).setHolding p.creator c none)
      else none
  | .transfer sender c amount receiver closeTo, l =>
    (if amount = 0 ∧ receiver = sender then optIn l sender c else some l).bind fun l =>
      (move l c amount sender receiver false).bind fun l =>
        if closeTo = 0 then some l else closeOut l sender c closeTo
  | .clawback sender c amount source receiver, l =>
    match l.params c with
    | none => none
    | some p =>
      if p.clawback ≠ 0 ∧ sender = p.clawback then move l c amount source receiver true
      else none
  | .freeze sender c target frozen, l =>
    match l.params c with
    | none => none
    | some p =>
      if p.freeze ≠ 0 ∧ sender = p.freeze then
        (l.holding target c).map fun h => l.setHolding target c (some { h with frozen })
      else none

/-- Execute one transaction.  The zero address authorises nothing. -/
def exec (t : Txn α ι) (l : Ledger α ι) : Option (Ledger α ι) :=
  if t.sender = 0 then none else apply t l

theorem exec_eq_some {t : Txn α ι} {l l' : Ledger α ι} :
    exec t l = some l' ↔ t.sender ≠ 0 ∧ apply t l = some l' := by
  by_cases h : t.sender = 0 <;> simp [exec, h]

/-- One successful transaction of anyone. -/
def Step (l l' : Ledger α ι) : Prop := ∃ t, exec t l = some l'

/-- `l'` is a later state of the ledger `l`. -/
def Later : Ledger α ι → Ledger α ι → Prop := Relation.ReflTransGen Step

end Trelyan.Asa
