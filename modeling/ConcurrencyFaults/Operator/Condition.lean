import ConcurrencyFaults.Operator.Requests
import ConcurrencyFaults.Plan.Call

/-!
# The operators on condition variables

The signal operator removes signals and broadcasts or exchanges the one for the other.  The wait
operator removes waits, turns timed waits into untimed ones or moves the deadline of a timed wait.
A deadline is moved by code in front of the wait that adds a constant to each field of the time
that the wait points to.
-/

namespace ConcurrencyFaults

namespace Condition

def signal : String := "pthread_cond_signal"

def broadcast : String := "pthread_cond_broadcast"

def wait : String := "pthread_cond_wait"

def timedWait : String := "pthread_cond_timedwait"

/-- Removes a signal or a wait. -/
def remove (pass : String) (site : CallSite) : Work Bool := do
  let _ ← Work.edit (site.remove 32 true)
  Work.markEdited site.handle
  Work.recordChange pass .callRemoved site.function
    ("removed " ++ site.name ++ " " ++ site.handle.text)
  return true

/-- Puts a call of another function in the place of a call and keeps its form. -/
def retarget (pass : String) (site : CallSite) (replacement : Instruction) (message : String) :
    Work Bool := do
  let handle ← Work.edit (Program.replaceWith site.handle replacement)
  Work.markEdited site.handle
  Work.markEdited handle
  Work.recordChange pass .callReplaced site.function message
  return true

end Condition

/-! ## Signals -/

namespace SignalOperator

open Condition

def name : String := "cond-signal"

def description : String := "Removes condition signals or exchanges signal and broadcast"

def search : CallSearch := { names := [signal, broadcast] }

/-- The function that a call is exchanged for. -/
def opposite (target : String) : String := if target = signal then broadcast else signal

/-- Makes a broadcast of a signal, or a signal of anything else. -/
def swap (site : CallSite) : Work Bool := do
  let other := opposite site.name
  let target ← Work.update (·.getOrDeclare other .status [.pointer])
  retarget name site (site.cloneWith target site.arguments site.result)
    (site.name ++ " -> " ++ other)

def apply (change : SignalChange) (site : CallSite) : Work Bool := do
  if site.argumentCount = 0 then
    Work.warn s!"{name}: call to {site.name} has no arguments, skipping"
    return false
  match change with
  | .remove => remove name site
  | .swap => swap site

def run (plan : SignalPlan) : Work Bool :=
  match plan.change with
  | none => return false
  | some change => do
      if plan.overridden then
        Work.warn s!"{name}: both remove and swap specified; remove takes precedence"
      let found ← Work.query search.inProgram
      Work.anyCall name found plan.positions fun _ site => apply change site

def report (plan : SignalPlan) : Work Report := Work.reportCalls name search plan.verbose

end SignalOperator

/-! ## Waits -/

namespace WaitOperator

open Condition

def name : String := "cond-wait"

def description : String := "Removes condition waits, drops their timeout or shifts their deadline"

def search : CallSearch := { names := [wait, timedWait] }

/-- Turns a timed wait into an untimed one, which lacks its last argument. -/
def untime (site : CallSite) : Work Bool := do
  if site.name = wait then
    Work.warn s!"{name}: switching {wait} to {timedWait} is not supported"
    return false
  if site.argumentCount ≠ 3 then
    Work.warn (s!"{name}: {timedWait} call " ++ site.handle.text ++
      s!" has {site.argumentCount} arguments, expected 3, skipping")
    return false
  let target ← Work.update (·.getOrDeclare wait .status [.pointer, .pointer])
  retarget name site (site.cloneWith target (site.arguments.take 2) .status)
    (timedWait ++ " -> " ++ wait)

/-- Inserts code in front of `anchor` that adds `delta` to a field of the time at `time`, and
answers the new instructions. -/
def addToField (anchor : Handle) (time : Operand) (field : Nat) (delta : Int)
    (location : Option Location) : Edit (List Handle) := do
  let emit (operation : Operation) := Program.insertBefore anchor { operation, location }
  let pointer ← emit (.fieldAddress time field)
  let old ← emit (.load (.result pointer) (.int 64) false .notAtomic .crossThread)
  let sum ← emit (.binary .add (.result old) (.int 64 true delta) (.int 64))
  let store ← emit (.store (.result pointer) (.result sum) false .notAtomic .crossThread)
  return [pointer, old, sum, store]

/-- The instruction in front of which the new code goes: the wait, or the one at a place in its
function.  There is none if the place lies beyond the function's end. -/
def anchor? (site : CallSite) (handles : List Handle) : Option Nat → Option Handle
  | none => some site.handle
  | some point => handles[point]?

/-- Moves the deadline of a timed wait. -/
def moveDeadline (site : CallSite) (seconds nanoseconds : Int) (point : Option Nat) :
    Work Bool := do
  if site.name ≠ timedWait then
    Work.warn s!"{name}: timeout modification only applies to {timedWait}, skipping"
    return false
  let some time := site.arguments[2]?
    | do
        Work.warn (s!"{name}: {timedWait} call " ++ site.handle.text ++
          " has no timespec argument, skipping")
        return false
  let handles ← match point with
    | none => pure []
    | some _ => Work.query (·.handlesOf site.function)
  let some anchor := anchor? site handles point
    | do
        Work.record (.error (s!"{name}: insert point {point.getD 0} is out of range " ++
          s!"({handles.length} instructions)"))
        return false
  let first ← Work.edit (addToField anchor time 0 seconds site.location)
  let second ← Work.edit (addToField anchor time 1 nanoseconds site.location)
  (first ++ second).forM Work.markEdited
  Work.markEdited site.handle
  let position ← Work.query (·.position anchor)
  Work.recordChange name .codeInserted site.function
    ("timeout of call " ++ site.handle.text ++ s!" shifted by {seconds}s {nanoseconds}ns")
    (some position)
  return true

def apply (change : WaitChange) (request : Nat) (site : CallSite) : Work Bool :=
  match change with
  | .remove => remove name site
  | .untime => untime site
  | .timeout seconds nanoseconds points =>
      moveDeadline site ((nthOrLast seconds request).getD 0)
        ((nthOrLast nanoseconds request).getD 0) (nthOrLast points request)

def run (plan : WaitPlan) : Work Bool :=
  match plan.change with
  | none => return false
  | some change => do
      let found ← Work.query search.inProgram
      Work.anyCall name found plan.positions (apply change)

def report (plan : WaitPlan) : Work Report := Work.reportCalls name search plan.verbose

end WaitOperator

end ConcurrencyFaults
