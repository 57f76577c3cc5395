import ConcurrencyFaults.Operator.Requests
import ConcurrencyFaults.Plan.Call

/-!
# The semaphore operator

Semaphores are given another initial value where they are created.  The value is the third argument
of `sem_init` and the fourth of `sem_open`.
-/

namespace ConcurrencyFaults

namespace SemaphoreOperator

def name : String := "semaphore"

def description : String := "Changes the initial value of semaphores"

def search : CallSearch := { names := ["sem_init", "sem_open"] }

/-- The argument that holds the initial value. -/
def valueArgument? : String → Option Nat
  | "sem_init" => some 2
  | "sem_open" => some 3
  | _ => none

/-- The value for a request.  A missing value is replaced by the fallback and one that is too large
by the largest, each with a warning. -/
def valueFor (plan : SemaphorePlan) (request : Nat) : Work Nat := do
  let value ← match plan.values[request]? with
    | some value => pure value
    | none => do
        Work.warn s!"{name}: no value given for request {request}, using {plan.fallback}"
        pure plan.fallback
  if value > SemaphorePlan.maxValue then
    Work.warn s!"{name}: value {value} exceeds SEM_VALUE_MAX, using {SemaphorePlan.maxValue}"
    return SemaphorePlan.maxValue
  else
    return value

/-- Writes a new initial value into a call and says whether the call had one. -/
def setValue (site : CallSite) (value : Nat) : Work Bool := do
  let some index := valueArgument? site.name
    | return false
  if site.argumentCount ≤ index then
    Work.warn (s!"{name}: call to {site.name} has {site.argumentCount} arguments, " ++
      s!"expected at least {index + 1}, skipping")
    return false
  let instruction ← Work.query (·.instruction site.handle)
  match instruction.operation.arguments? with
  | none => return false
  | some arguments =>
      match arguments[index]? with
      | none => return false
      | some old =>
          Work.edit (Program.setOperation site.handle
            (instruction.operation.withArguments (arguments.set index (.int 32 false value))))
          Work.markEdited site.handle
          Work.recordChange name .argumentChanged site.function
            (site.name ++ " value " ++ old.text ++ s!" -> {value}")
          return true

def run (plan : SemaphorePlan) : Work Bool := do
  if plan.positions.isEmpty then
    Work.warn s!"{name}: modify specified without any positions"
    return false
  let found ← Work.query search.inProgram
  Work.anyCall name found plan.positions fun request site => do
    let value ← valueFor plan request
    setValue site value

/-- A call with its initial value, as reports show them. -/
def detail (site : CallSite) : String :=
  let value := (valueArgument? site.name).bind (site.arguments[·]?)
  site.name ++ " " ++ (value.map Operand.text).getD "?"

def report (plan : SemaphorePlan) : Work Report := do
  let found ← Work.query search.inProgram
  Work.reportSites name (found.sites.map fun site => (site.location, detail site)) plan.verbose

end SemaphoreOperator

end ConcurrencyFaults
