import ConcurrencyFaults.Operator.Requests
import ConcurrencyFaults.Plan.Memory

/-!
# The volatile operator

Volatile loads, stores, compare-and-exchanges, updates and memory copies are numbered in visitation
order.  A requested access becomes an ordinary one; of a memory copy, the flag among the arguments
is set to zero.
-/

namespace ConcurrencyFaults

namespace VolatileOperator

def name : String := "volatile"

def description : String := "Clears the volatile flag of memory accesses and memcpy intrinsics"

/-- The flag of a memory copy that is not volatile. -/
def clearFlag : Operand := .int 1 false 0

/-- The same access without its volatile flag; `none` for what has no such flag. -/
def cleared? : Operation → Option Operation
  | .load pointer type _ order scope => some (.load pointer type false order scope)
  | .store pointer value _ order scope => some (.store pointer value false order scope)
  | .compareExchange pointer expected new type success failure scope _ =>
      some (.compareExchange pointer expected new type success failure scope false)
  | .update operator pointer value type order scope _ =>
      some (.update operator pointer value type order scope false)
  | operation =>
      match operation.arguments? with
      | none => none
      | some arguments =>
          if MemorySite.copyFlagArgument < arguments.length then
            some (operation.withArguments (arguments.set MemorySite.copyFlagArgument clearFlag))
          else none

/-- Clears the flag of one access and says whether it had one. -/
def clear (site : MemorySite) : Work Bool := do
  let instruction ← Work.query (·.instruction site.handle)
  match cleared? instruction.operation with
  | none => return false
  | some operation =>
      Work.edit (Program.setOperation site.handle operation)
      Work.recordChange name .volatileRemoved site.function
        (site.kind.text ++ " is no longer volatile")
      return true

def run (plan : VolatilePlan) : Work Bool := do
  let sites := MemorySite.volatiles (← get).program
  Work.anySite name sites plan.positions fun _ site => clear site

def report (plan : VolatilePlan) : Work Report := do
  let sites := MemorySite.volatiles (← get).program
  Work.reportSites name (sites.map fun site => (site.location, site.kind.text)) plan.verbose

end VolatileOperator

end ConcurrencyFaults
