import ConcurrencyFaults.Operator.Requests
import ConcurrencyFaults.Plan.Memory

/-!
# The fence operator

Fences are numbered in visitation order.  A requested fence is erased, is given another order or has
its scope toggled.
-/

namespace ConcurrencyFaults

namespace FenceOperator

def name : String := "fence"

def description : String := "Removes fences, changes their ordering or toggles their scope"

/-- The order and scope of a fence. -/
def fence? : Operation → Option (MemoryOrder × SyncScope)
  | .fence order scope => some (order, scope)
  | _ => none

/-- Gives a fence another order. -/
def changeOrder (site : MemorySite) (order : MemoryOrder) : Work Unit := do
  let instruction ← Work.query (·.instruction site.handle)
  match fence? instruction.operation with
  | none => return ()
  | some (old, scope) =>
      Work.edit (Program.setOperation site.handle (.fence order scope))
      Work.recordChange name .orderingChanged site.function (old.text ++ " -> " ++ order.text)

/-- Gives a fence the other scope. -/
def toggleScope (site : MemorySite) : Work Unit := do
  let instruction ← Work.query (·.instruction site.handle)
  match fence? instruction.operation with
  | none => return ()
  | some (order, scope) =>
      Work.edit (Program.setOperation site.handle (.fence order scope.toggled))
      Work.recordChange name .scopeToggled site.function ("scope is now " ++ scope.toggled.text)

def remove (site : MemorySite) : Work Unit := do
  let _ ← Work.edit (Program.erase site.handle)
  Work.recordChange name .instructionRemoved site.function "removed fence"

/-- Makes one change.  A request without a valid order is passed over with a warning. -/
def apply (change : FenceChange) (request : Nat) (site : MemorySite) : Work Unit :=
  match change with
  | .remove => remove site
  | .toggleScope => toggleScope site
  | .order codes =>
      match (nthOrLast codes request).bind OrderTable.fence.decode? with
      | some order => changeOrder site order
      | none => Work.warn s!"{name}: no valid ordering for request {request}, skipping"

/-- Makes the planned changes.  Each claimed position counts as a change. -/
def run (plan : FencePlan) : Work Bool :=
  match plan.change with
  | none => return false
  | some change => do
      let sites := MemorySite.fences (← get).program
      Work.anySite name sites plan.positions fun request site => do
        apply change request site
        return true

def report (plan : FencePlan) : Work Report := do
  let sites := MemorySite.fences (← get).program
  Work.reportSites name (sites.map fun site => (site.location, "")) plan.verbose

end FenceOperator

end ConcurrencyFaults
