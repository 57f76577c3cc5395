import ConcurrencyFaults.Operator.Lock.Basic

/-!
# Shifting locks and unlocks

A lock or an unlock moves by a number of instructions, backward if the number is negative, and
becomes a plain call with its first argument alone.  The new call stands before the instruction that
the walk reaches, so a walk of one step forward would change nothing.
-/

namespace ConcurrencyFaults

namespace LockOperator

/-- The name of a side of a pair. -/
def roleText : LockRole → String
  | .lock => "lock"
  | .unlock => "unlock"

/-- Why a call cannot be shifted.  A call whose result is read can only be moved if the readers can
take a constant instead. -/
def shiftObstacle? (site : CallSite) (family : LockFamily) : Work (Option String) := do
  if site.arguments.isEmpty then
    return some ("call " ++ site.handle.text ++ " has no arguments, skipping shift")
  let uses ← if family.returnsStatus then pure 0 else Work.query (·.useCount site.handle)
  if uses > 0 then
    return some (family.text ++ " call " ++ site.handle.text ++ " still has uses, skipping shift")
  if site.isInvoke && site.argumentCount != 1 then
    return some ("invoke " ++ site.handle.text ++
      " does not have exactly one argument, skipping shift")
  return none

/-- The plain call that a walk starts from: an invoke first becomes one, followed by a branch to its
normal continuation. -/
def plainCall (site : CallSite) (mutex : Operand) : Edit Handle :=
  if site.isInvoke then do
    let _ ← site.branchToNormal
    let call ← Program.insertBefore site.handle (site.asCall [mutex])
    let _ ← Program.eraseOrZero site.handle statusWidth true
    return call
  else
    return site.handle

/-- Moves one call and says whether it could be moved. -/
def shiftSite (site : CallSite) (family : LockFamily) (direction : Int) : Work Bool := do
  match ← shiftObstacle? site family, site.arguments with
  | some obstacle, _ =>
      Work.warn (s!"{name}: " ++ obstacle)
      return false
  | none, [] => return false
  | none, mutex :: _ =>
      let base ← Work.edit (plainCall site mutex)
      let step ← Work.query (·.step base direction)
      if step.clamped then
        Work.warn (s!"{name}: shift of {direction} from call " ++ site.handle.text ++
          " reached the function boundary")
      let moved ← Work.edit (Program.insertBefore step.target (site.asCall [mutex]))
      let _ ← Work.edit (Program.eraseOrZero base statusWidth true)
      Work.markEdited site.handle
      Work.markEdited moved
      let position ← Work.query (·.position moved)
      Work.recordChange name .callShifted site.function
        (s!"shifted {site.name} " ++ site.handle.text ++ s!" by {direction}") (some position)
      return true

/-- Moves one side of a pair in the direction that its request gives. -/
def shiftSide (address : PairAddress) (role : LockRole) (site : CallSite) (family : LockFamily)
    (direction : Option Int) : Work Bool :=
  match direction with
  | none => do
      Work.warn (s!"{name}: position pair " ++ address.text ++ " has no " ++ roleText role ++
        " shift direction specified")
      return false
  | some 1 => do
      Work.warn s!"{name}: a shift of positive 1 is a no-op"
      return false
  | some 0 => return false
  | some direction => shiftSite site family direction

/-- Moves the locks and unlocks of the pairs at the given addresses, the lock of a pair first. -/
def shift (index : PairIndex) (plan : LockPlan) : Work Bool :=
  Work.anyOf (PairAddress.listOf plan.positions).zipIdx fun (address, request) => do
    let some pair ← resolve index plan.addressing address
      | return false
    if !(← isPairUntouched pair) then
      return false
    let lockMoved ← shiftSide address .lock pair.lock pair.family plan.lockDirections[request]?
    let unlockMoved ←
      shiftSide address .unlock pair.unlock pair.family plan.unlockDirections[request]?
    return lockMoved || unlockMoved

end LockOperator

end ConcurrencyFaults
