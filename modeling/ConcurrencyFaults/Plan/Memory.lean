import ConcurrencyFaults.Plan.Basic

/-!
# Plans for memory accesses

Fences, atomic accesses and volatile accesses are each named by one position.
-/

namespace ConcurrencyFaults

/-! ## Fences -/

inductive FenceChange where
  | remove
  /-- New orders, one number for each request. -/
  | order (codes : List Nat)
  | toggleScope
deriving DecidableEq, Repr, Inhabited

/-- What to do with which fences.  Without a change, fences are only reported. -/
structure FencePlan where
  change : Option FenceChange := none
  positions : List Nat := []
  verbose : Bool := false
deriving DecidableEq, Repr, Inhabited

namespace FencePlan

/-- The plan without positions that some switches ask for. -/
def ofFlags (remove : Bool) (codes : Option (List Nat)) (scope : Bool) :
    Except PlanError FencePlan :=
  match remove, codes, scope with
  | false, none, false => return {}
  | true, none, false => return { change := some .remove }
  | false, some codes, false => return { change := some (.order codes) }
  | false, none, true => return { change := some .toggleScope }
  | true, some _, _ => throw (.twoFenceChanges "remove" "ordering")
  | true, none, true => throw (.twoFenceChanges "remove" "scope")
  | false, some _, true => throw (.twoFenceChanges "ordering" "scope")

def check (plan : FencePlan) : Except PlanError Unit :=
  match plan.change with
  | none => return ()
  | some .remove => requirePositions plan.positions "fence removal"
  | some .toggleScope => requirePositions plan.positions "fence scope toggling"
  | some (.order codes) => do
      requirePositions plan.positions "fence ordering change"
      if codes.isEmpty then
        throw (.noOrders "fence")
      OrderTable.fence.check codes

end FencePlan

/-! ## Atomic accesses -/

inductive AtomicChange where
  /-- New orders, one number for each request. -/
  | order (codes : List Nat)
  | toggleScope
  /-- Makes an atomic store plain. -/
  | makePlain
deriving DecidableEq, Repr, Inhabited

/-- What to do with which atomic accesses of one kind.  Without a change, they are only reported. -/
structure AtomicPlan where
  target : AtomicTarget
  change : Option AtomicChange := none
  positions : List Nat := []
  /-- Whether plain loads and stores are left out of the numbering. -/
  onlyAtomic : Bool := false
  verbose : Bool := false
deriving DecidableEq, Repr, Inhabited

namespace AtomicPlan

/-- The plan without positions that some switches ask for. -/
def ofFlags (target : AtomicTarget) (toggle : Bool) (codes : Option (List Nat)) (scope : Bool) :
    Except PlanError AtomicPlan :=
  match toggle, codes, scope with
  | false, none, false => return { target }
  | true, none, false => return { target, change := some .makePlain }
  | false, some codes, false => return { target, change := some (.order codes) }
  | false, none, true => return { target, change := some .toggleScope }
  | true, some _, _ => throw (.twoAtomicChanges "ordering" "toggle")
  | true, none, true => throw (.twoAtomicChanges "toggle" "scope")
  | false, some _, true => throw (.twoAtomicChanges "ordering" "scope")

def check (plan : AtomicPlan) : Except PlanError Unit :=
  match plan.change with
  | none => return ()
  | some change => do
      requirePositions plan.positions (plan.target.text ++ " mutation")
      match change with
      | .order codes =>
          if codes.isEmpty then
            throw (.noOrders plan.target.text)
          plan.target.table.check codes
      | .makePlain =>
          if plan.target ≠ .store then
            throw (.notAStore plan.target)
      | .toggleScope => return ()

end AtomicPlan

/-! ## Volatile accesses -/

/-- Which volatile accesses to make ordinary.  Without positions, they are only reported. -/
structure VolatilePlan where
  positions : List Nat := []
  verbose : Bool := false
deriving DecidableEq, Repr, Inhabited

end ConcurrencyFaults
