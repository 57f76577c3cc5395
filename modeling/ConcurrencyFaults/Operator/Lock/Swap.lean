import ConcurrencyFaults.Operator.Lock.Basic

/-!
# Swapping lock pairs

Two pairs of one family exchange their locks and then their unlocks.  Each place keeps the form of
its call, with the continuations of an invoke, and its location; target, arguments, result type and
attributes move to the other place.
-/

namespace ConcurrencyFaults

namespace LockOperator

/-- The call of `other` in the form of `site`. -/
def inPlaceOf (site other : CallSite) : Instruction :=
  { site.cloneWith other.target other.arguments other.result with attributes := other.attributes }

/-- Exchanges two calls. -/
def swapSites (first second : CallSite) : Work Unit := do
  let newFirst ← Work.edit (Program.replaceWith first.handle (inPlaceOf first second))
  let newSecond ← Work.edit (Program.replaceWith second.handle (inPlaceOf second first))
  [first.handle, second.handle, newFirst, newSecond].forM Work.markEdited
  Work.recordChange name .callSwapped first.function
    (first.name ++ " " ++ first.handle.text ++ " <-> " ++ second.name ++ " " ++ second.handle.text)

/-- Why two pairs cannot be swapped, if that can be told from the pairs alone. -/
def swapObstacle? (first second : LockPair) : Option String :=
  if first.lock.handle = second.lock.handle then
    some "lock pairs stem from the same lock call, skipping"
  else if first.unlock.handle = second.unlock.handle then
    some "lock pairs stem from the same unlock call, skipping"
  else if first.family ≠ second.family then
    some ("unable to swap a " ++ first.family.text ++ " pair with a " ++ second.family.text ++
      " pair, skipping")
  else
    ([first.lock, first.unlock, second.lock, second.unlock].find? fun site =>
      site.argumentCount != 1).map fun site =>
        "call " ++ site.handle.text ++ " to " ++ site.name ++
          " does not have exactly one argument, skipping"

/-- Exchanges two pairs and says whether that was possible. -/
def swapPairs (first second : LockPair) : Work Bool := do
  match swapObstacle? first second with
  | some obstacle =>
      Work.warn (s!"{name}: " ++ obstacle)
      return false
  | none => pure ()
  if !(← isPairUntouched first) then
    return false
  if !(← isPairUntouched second) then
    return false
  swapSites first.lock second.lock
  swapSites first.unlock second.unlock
  return true

/-- Swaps the pairs at the given addresses, two and two. -/
def swap (index : PairIndex) (plan : LockPlan) : Work Bool :=
  Work.anyOf (PairAddress.pairsOf plan.positions) fun (firstAddress, secondAddress) => do
    let some first ← resolve index plan.addressing firstAddress
      | return false
    let some second ← resolve index plan.addressing secondAddress
      | return false
    swapPairs first second

end LockOperator

end ConcurrencyFaults
