import ConcurrencyFaults.Operator.Requests
import ConcurrencyFaults.Plan.Memory

/-!
# The operators on atomic accesses

Compare-and-exchanges, stores, loads and updates are each numbered on their own, in visitation
order.  A requested access is given another order, has its scope toggled or, if it is an atomic
store, becomes plain.  Plain loads and stores can be candidates too, but have no order or scope that
could change.
-/

namespace ConcurrencyFaults

namespace AtomicOperator

/-- Each kind of access is an operator of its own. -/
def name (target : AtomicTarget) : String := target.text

def description : String :=
  "Changes the ordering or scope of atomic instructions, or makes stores non-atomic"

/-- The candidates of a kind, in the order of their positions. -/
def sites (target : AtomicTarget) (onlyAtomic : Bool) (program : Program) : List MemorySite :=
  match target with
  | .compareExchange => MemorySite.compareExchanges program
  | .store => MemorySite.stores program onlyAtomic
  | .load => MemorySite.loads program onlyAtomic
  | .update => MemorySite.updates program

/-- The order and scope that can be changed.  Of a compare-and-exchange it is the order of
success. -/
def access? : Operation → Option (MemoryOrder × SyncScope)
  | .load _ _ _ order scope | .store _ _ _ order scope | .update _ _ _ _ order scope _ =>
      some (order, scope)
  | .compareExchange _ _ _ _ success _ scope _ => some (success, scope)
  | _ => none

/-- The same operation with another order and scope. -/
def withAccess (order : MemoryOrder) (scope : SyncScope) : Operation → Operation
  | .load pointer type isVolatile _ _ => .load pointer type isVolatile order scope
  | .store pointer value isVolatile _ _ => .store pointer value isVolatile order scope
  | .update operator pointer value type _ _ isVolatile =>
      .update operator pointer value type order scope isVolatile
  | .compareExchange pointer expected new type _ failure _ isVolatile =>
      .compareExchange pointer expected new type order failure scope isVolatile
  | operation => operation

/-- Whether plain accesses of this kind exist. -/
def mayBePlain : AtomicTarget → Bool
  | .store | .load => true
  | .compareExchange | .update => false

/-- The new order and scope with the entry for the change, or the warning that none is made. -/
def decide (target : AtomicTarget) (change : AtomicChange) (request : Nat) (order : MemoryOrder)
    (scope : SyncScope) : Except String (MemoryOrder × SyncScope × EntryKind × String) :=
  let name := name target
  match change with
  | .makePlain =>
      if order.isAtomic then
        return (.notAtomic, .crossThread, .atomicityRemoved, s!"{name} is no longer atomic")
      else
        throw s!"{name}: toggle only supported for atomic stores, skipping"
  | .order codes =>
      if mayBePlain target && !order.isAtomic then
        throw s!"{name}: ordering change only supported for atomic {name}s, skipping"
      else
        match (nthOrLast codes request).bind target.table.decode? with
        | some new => return (new, scope, .orderingChanged, order.text ++ " -> " ++ new.text)
        | none => throw s!"{name}: no valid ordering for request {request}, skipping"
  | .toggleScope =>
      if mayBePlain target && !order.isAtomic then
        throw s!"{name}: scope toggle only supported for atomic {name}s, skipping"
      else
        return (order, scope.toggled, .scopeToggled, "scope is now " ++ scope.toggled.text)

/-- Makes one change and says whether it was made. -/
def apply (target : AtomicTarget) (change : AtomicChange) (request : Nat) (site : MemorySite) :
    Work Bool := do
  let instruction ← Work.query (·.instruction site.handle)
  match access? instruction.operation with
  | none => return false
  | some (order, scope) =>
      match decide target change request order scope with
      | .error warning =>
          Work.warn warning
          return false
      | .ok (order, scope, kind, message) =>
          Work.edit (Program.setOperation site.handle
            (withAccess order scope instruction.operation))
          Work.recordChange (name target) kind site.function message
          return true

def run (plan : AtomicPlan) : Work Bool :=
  match plan.change with
  | none => return false
  | some change => do
      let sites := sites plan.target plan.onlyAtomic (← get).program
      Work.anySite (name plan.target) sites plan.positions (apply plan.target change)

/-- The orders of an access, as reports show them. -/
def orderText : Operation → String
  | .load _ _ _ order _ | .store _ _ _ order _ | .update _ _ _ _ order _ _ => order.text
  | .compareExchange _ _ _ _ success failure _ _ => success.text ++ " " ++ failure.text
  | _ => ""

def report (plan : AtomicPlan) : Work Report := do
  let sites := sites plan.target plan.onlyAtomic (← get).program
  let lines ← sites.mapM fun site => do
    let instruction ← Work.query (·.instruction site.handle)
    return (site.location, orderText instruction.operation)
  Work.reportSites (name plan.target) lines plan.verbose

end AtomicOperator

end ConcurrencyFaults
