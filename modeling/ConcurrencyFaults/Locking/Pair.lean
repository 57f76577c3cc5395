import ConcurrencyFaults.CallSite
import ConcurrencyFaults.Locking.Primitive

/-!
# Lock pairs

A lock pair is a call that locks a mutex and a call that unlocks it, both in one function.
-/

namespace ConcurrencyFaults

/-- A lock and an unlock of one mutex. -/
structure LockPair where
  family : LockFamily
  lock : CallSite
  unlock : CallSite
deriving DecidableEq, Repr, Inhabited

namespace LockPair

/-- The function that holds the pair. -/
def function (pair : LockPair) : FunctionId := pair.lock.function

def category (pair : LockPair) : PairCategory :=
  .ofForms pair.lock.form.form pair.unlock.form.form

/-- A pair holds as long as both sides do. -/
def validate (pair : LockPair) (program : Program) : Except EditError Unit := do
  pair.lock.validate program
  pair.unlock.validate program

/-- The number of steps between the two sides. -/
def distance (pair : LockPair) (program : Program) : Except EditError Nat :=
  program.distance pair.lock.handle pair.unlock.handle

def text (pair : LockPair) : String :=
  pair.category.text ++ " " ++ pair.lock.handle.text ++ " -> " ++ pair.unlock.handle.text

end LockPair

end ConcurrencyFaults
