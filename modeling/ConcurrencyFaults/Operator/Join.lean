import ConcurrencyFaults.Operator.Requests
import ConcurrencyFaults.Plan.Call

/-!
# The join operator

Joins of the requested families are removed or give way to a sleep.  The sleep that replaces a POSIX
join passes its status on to what read the join's.  The C++ join returns nothing, so the sleep is
put in front of it and the join is erased.
-/

namespace ConcurrencyFaults

namespace JoinOperator

def name : String := "join"

def description : String := "Removes thread joins or replaces them with a sleep"

def posixJoin : String := "pthread_join"

def standardJoin : String := "std::__1::thread::join"

/-- Symbols are made readable only if the C++ joins are looked for. -/
def search (plan : JoinPlan) : CallSearch where
  names :=
    (if plan.posix then [posixJoin] else []) ++ (if plan.standard then [standardJoin] else [])
  demangled := plan.standard

def remove (site : CallSite) : Work Bool := do
  let _ ← Work.edit (site.remove 32 true)
  Work.recordChange name .callRemoved site.function
    ("removed " ++ site.name ++ " " ++ site.handle.text)
  return true

/-- Puts a sleep in front of a join, which is erased.  An invoke gives way to a branch to its normal
continuation. -/
def sleepBefore (site : CallSite) (sleep : Instruction) : Edit Handle := do
  let handle ← Program.insertBefore site.handle sleep
  match site.form with
  | .call => pure ()
  | .invoke normal _ =>
      let _ ← Program.insertBefore site.handle
        { operation := .branch normal, location := site.location }
  let _ ← Program.erase site.handle
  return handle

/-- Replaces a join by a sleep, unless it is a C++ join whose result is read. -/
def replaceWithSleep (site : CallSite) (seconds : Nat) : Work Bool := do
  let isStandard := site.name == standardJoin
  let uses ← if isStandard then Work.query (·.useCount site.handle) else pure 0
  if uses > 0 then
    Work.warn (s!"{name}: std::thread::join call " ++ site.handle.text ++
      " still has uses, skipping")
    return false
  let target ← Work.update (·.getOrDeclare "sleep" .status [.status])
  let sleep : Instruction :=
    { operation := .call (.direct target) [.int 32 true seconds] .status
      location := site.location }
  let handle ← Work.edit (if isStandard then sleepBefore site sleep else site.replace sleep)
  Work.markEdited handle
  Work.recordChange name .callReplaced site.function (site.name ++ s!" -> sleep({seconds})")
  return true

def apply (change : JoinChange) (site : CallSite) : Work Bool :=
  match change with
  | .remove => remove site
  | .sleep seconds => replaceWithSleep site seconds

/-- Makes the planned changes.  A join counts as edited even if it was skipped. -/
def run (plan : JoinPlan) : Work Bool :=
  match plan.change with
  | none => return false
  | some change => do
      if plan.positions.isEmpty then
        Work.warn s!"{name}: mutation specified without any positions"
        return false
      let found ← Work.query (search plan).inProgram
      Work.anyCall name found plan.positions fun _ site => do
        let changed ← apply change site
        Work.markEdited site.handle
        return changed

def report (plan : JoinPlan) : Work Report := Work.reportCalls name (search plan) plan.verbose

end JoinOperator

end ConcurrencyFaults
