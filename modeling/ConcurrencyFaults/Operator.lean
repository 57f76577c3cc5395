import ConcurrencyFaults.Operator.Atomic
import ConcurrencyFaults.Operator.Condition
import ConcurrencyFaults.Operator.Fence
import ConcurrencyFaults.Operator.Join
import ConcurrencyFaults.Operator.Lock
import ConcurrencyFaults.Operator.Semaphore
import ConcurrencyFaults.Operator.Volatile
import ConcurrencyFaults.Operator.Yield

/-!
# Operators

An operator changes one kind of synchronization, as its plan says.  Without a change to make it only
reports its candidates.  The names of operators keep their positions and journal entries apart.
-/

namespace ConcurrencyFaults

/-- An operator with its plan. -/
inductive Operator where
  | lock (plan : LockPlan)
  | fence (plan : FencePlan)
  | atomic (plan : AtomicPlan)
  | volatile (plan : VolatilePlan)
  | semaphore (plan : SemaphorePlan)
  | join (plan : JoinPlan)
  | signal (plan : SignalPlan)
  | wait (plan : WaitPlan)
  | yield (plan : YieldPlan)
deriving DecidableEq, Repr

namespace Operator

/-- Refuses a plan that contradicts itself. -/
def check : Operator → Except PlanError Unit
  | .lock plan => plan.check
  | .fence plan => plan.check
  | .atomic plan => plan.check
  | .volatile _ => return ()
  | .semaphore plan => plan.check
  | .join plan => plan.check
  | .signal _ => return ()
  | .wait plan => plan.check
  | .yield plan => plan.check

def name : Operator → String
  | .lock _ => LockOperator.name
  | .fence _ => FenceOperator.name
  | .atomic plan => AtomicOperator.name plan.target
  | .volatile _ => VolatileOperator.name
  | .semaphore _ => SemaphoreOperator.name
  | .join _ => JoinOperator.name
  | .signal _ => SignalOperator.name
  | .wait _ => WaitOperator.name
  | .yield _ => YieldOperator.name

def description : Operator → String
  | .lock _ => LockOperator.description
  | .fence _ => FenceOperator.description
  | .atomic _ => AtomicOperator.description
  | .volatile _ => VolatileOperator.description
  | .semaphore _ => SemaphoreOperator.description
  | .join _ => JoinOperator.description
  | .signal _ => SignalOperator.description
  | .wait _ => WaitOperator.description
  | .yield _ => YieldOperator.description

/-- Whether the plan asks for a change. -/
def mutates : Operator → Bool
  | .lock plan => plan.mode.isSome
  | .fence plan => plan.change.isSome
  | .atomic plan => plan.change.isSome
  | .volatile plan => !plan.positions.isEmpty
  | .semaphore plan => plan.modify
  | .join plan => plan.change.isSome
  | .signal plan => plan.change.isSome
  | .wait plan => plan.change.isSome
  | .yield plan => plan.remove

/-- Makes the planned changes and says whether anything was changed.  Only the lock operator asks
the oracle. -/
def run (operator : Operator) (oracle : AliasOracle) : Work Bool :=
  match operator with
  | .lock plan => LockOperator.run plan oracle
  | .fence plan => FenceOperator.run plan
  | .atomic plan => AtomicOperator.run plan
  | .volatile plan => VolatileOperator.run plan
  | .semaphore plan => SemaphoreOperator.run plan
  | .join plan => JoinOperator.run plan
  | .signal plan => SignalOperator.run plan
  | .wait plan => WaitOperator.run plan
  | .yield plan => YieldOperator.run plan

/-- Lists the candidates that the operator numbers. -/
def report (operator : Operator) (oracle : AliasOracle) : Work Report :=
  match operator with
  | .lock plan => LockOperator.report plan oracle
  | .fence plan => FenceOperator.report plan
  | .atomic plan => AtomicOperator.report plan
  | .volatile plan => VolatileOperator.report plan
  | .semaphore plan => SemaphoreOperator.report plan
  | .join plan => JoinOperator.report plan
  | .signal plan => SignalOperator.report plan
  | .wait plan => WaitOperator.report plan
  | .yield plan => YieldOperator.report plan

/-- What a run of one operator comes to. -/
structure Outcome where
  modified : Bool
  /-- The candidates, if no change was asked for. -/
  report : Option Report
deriving DecidableEq, Repr

/-- Runs an operator by itself.  Without a change to make it reports; otherwise it makes the changes
and closes the journal with a summary. -/
def perform (operator : Operator) (oracle : AliasOracle) : Work Outcome := do
  if operator.mutates then
    let modified ← operator.run oracle
    let summary := (← get).ledger.journal.summary
    Work.record (.info (operator.name ++ ": " ++ summary))
    return { modified, report := none }
  else
    let report ← operator.report oracle
    return { modified := false, report := some report }

end Operator

end ConcurrencyFaults
