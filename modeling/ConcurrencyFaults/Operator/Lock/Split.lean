import ConcurrencyFaults.Operator.Lock.Basic

/-!
# Splitting critical sections

A pair is split by an unlock and a lock that are inserted at two offsets after its lock.  Both
offsets count in the section as it was before, and lie in front of its unlock.
-/

namespace ConcurrencyFaults

namespace LockOperator

/-- The two offsets of a request. -/
def splitOffsets? (offsets : List Nat) (request : Nat) : Option (Nat × Nat) :=
  match offsets[2 * request]?, offsets[2 * request + 1]? with
  | some unlock, some lock => some (unlock, lock)
  | _, _ => none

/-- Why a pair of some distance cannot be split at the given offsets. -/
def splitObstacle? (pair : LockPair) (distance unlockOffset lockOffset : Nat) : Option String :=
  let tooFar (offset : String) :=
    " has " ++ offset ++
      s!" that is not less than the distance {distance} between the pair, skipping"
  if unlockOffset ≥ distance then
    some (tooFar s!"an unlock position {unlockOffset}")
  else if lockOffset ≥ distance then
    some (tooFar s!"a lock position {lockOffset}")
  else if pair.lock.argumentCount ≠ 1 || pair.unlock.argumentCount ≠ 1 then
    some " has a call without exactly one argument, skipping"
  else
    none

/-- Inserts a copy of a call some steps after `lock`.  A warning says if the function ended
before. -/
def insertCopy (lock : Handle) (site : CallSite) (role : String) (offset : Nat) : Work Handle := do
  let (copy, clamped) ←
    Work.edit (Program.insertRelative lock (site.asCall site.arguments) offset)
  if clamped then
    Work.warn (s!"{name}: " ++ role ++ " insertion reached the end of the function")
  return copy

/-- Splits one pair.  An unlock that is inserted before the place of the lock moves that place by
one. -/
def splitPair (address : PairAddress) (pair : LockPair) (unlockOffset lockOffset : Nat) :
    Work Bool := do
  let distance ← Work.query pair.distance
  match splitObstacle? pair distance unlockOffset lockOffset with
  | some obstacle =>
      Work.warn (s!"{name}: position pair " ++ address.text ++ obstacle)
      return false
  | none =>
      let unlockCopy ← insertCopy pair.lock.handle pair.unlock "unlock" unlockOffset
      let lockOffset := if unlockOffset < lockOffset then lockOffset + 1 else lockOffset
      let lockCopy ← insertCopy pair.lock.handle pair.lock "lock" lockOffset
      Work.markEdited unlockCopy
      Work.markEdited lockCopy
      Work.recordChange name .pairSplit pair.function
        ("split pair " ++ address.text ++
          s!": unlock after {unlockOffset}, lock after {lockOffset}")
      return true

/-- Splits the pairs at the given addresses. -/
def split (index : PairIndex) (plan : LockPlan) : Work Bool :=
  Work.anyOf (PairAddress.listOf plan.positions).zipIdx fun (address, request) => do
    let some pair ← resolve index plan.addressing address
      | return false
    if !(← isPairUntouched pair) then
      return false
    match splitOffsets? plan.splitOffsets request with
    | some (unlockOffset, lockOffset) => splitPair address pair unlockOffset lockOffset
    | none =>
        Work.warn (s!"{name}: position pair " ++ address.text ++
          " has no split positions specified, skipping")
        return false

end LockOperator

end ConcurrencyFaults
