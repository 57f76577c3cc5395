import ConcurrencyFaults.Operator.Lock.Remove
import ConcurrencyFaults.Operator.Lock.Shift
import ConcurrencyFaults.Operator.Lock.Split
import ConcurrencyFaults.Operator.Lock.Swap

/-!
# The lock operator

Each run and each report first matches the pairs of the program as it then is.
-/

namespace ConcurrencyFaults

namespace LockOperator

/-- Makes the planned changes. -/
def run (plan : LockPlan) (oracle : AliasOracle) : Work Bool :=
  match plan.mode with
  | none => return false
  | some mode => do
      let index ← PairIndex.build oracle
      match mode with
      | .remove => remove index plan
      | .swap => swap index plan
      | .shift => shift index plan
      | .split => split index plan

def report (plan : LockPlan) (oracle : AliasOracle) : Work Report := do
  let index ← PairIndex.build oracle
  Work.query fun program => Report.pairs name index program plan.verbose

end LockOperator

end ConcurrencyFaults
