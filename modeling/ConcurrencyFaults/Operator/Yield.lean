import ConcurrencyFaults.Operator.Requests
import ConcurrencyFaults.Plan.Call

/-!
# The yield operator

Calls that yield the processor are removed.  A yield whose result is read stays.
-/

namespace ConcurrencyFaults

namespace YieldOperator

def name : String := "yield"

def description : String := "Removes thread yields"

def search : CallSearch := { names := ["pthread_yield", "sched_yield"] }

/-- Removes a yield and says whether it could be removed. -/
def remove (site : CallSite) : Work Bool := do
  let uses ← Work.query (·.useCount site.handle)
  if uses > 0 then
    Work.warn (s!"{name}: call to {site.name} " ++ site.handle.text ++ " has uses, skipping")
    return false
  let _ ← Work.edit site.branchToNormal
  let _ ← Work.edit (Program.erase site.handle)
  Work.markEdited site.handle
  Work.recordChange name .callRemoved site.function ("removed " ++ site.name)
  return true

def run (plan : YieldPlan) : Work Bool := do
  let found ← Work.query search.inProgram
  Work.anyCall name found plan.positions fun _ site => remove site

def report (plan : YieldPlan) : Work Report := Work.reportCalls name search plan.verbose

end YieldOperator

end ConcurrencyFaults
