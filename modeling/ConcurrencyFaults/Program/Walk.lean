import ConcurrencyFaults.Program.Basic

/-!
# Positions, distances and walks

All three count single steps along the visitation order of one function and cross block boundaries.
-/

namespace ConcurrencyFaults

/-- Where a walk ended. -/
structure Step where
  target : Handle
  /-- The walk met the first or the last instruction before it was over. -/
  clamped : Bool
deriving DecidableEq, Repr

namespace Program

/-- The place of an instruction in the visitation order of its function. -/
def position (program : Program) (handle : Handle) : Except EditError Nat := do
  let (function, _) ← program.parent handle
  let handles ← program.handlesOf function
  match handles.findIdx? (· == handle) with
  | some position => return position
  | none => throw (.unlistedInFunction handle)

/-- The number of steps between two instructions of one function, whichever comes first. -/
def distance (program : Program) (first second : Handle) : Except EditError Nat := do
  let (firstFunction, _) ← program.parent first
  let (secondFunction, _) ← program.parent second
  if firstFunction ≠ secondFunction then
    throw (.differentFunctions first second)
  let firstPosition ← program.position first
  let secondPosition ← program.position second
  return max firstPosition secondPosition - min firstPosition secondPosition

/-- Walks forward, or backward for a negative number of steps, without leaving the function. -/
def step (program : Program) (start : Handle) (steps : Int) : Except EditError Step := do
  let (function, _) ← program.parent start
  let handles ← program.handlesOf function
  match handles.findIdx? (· == start) with
  | none => throw (.unlistedInFunction start)
  | some position =>
      let last := handles.length - 1
      let wanted := position + steps
      let reached := (min (max wanted 0) last).toNat
      return { target := handles.getD reached start
               clamped := wanted < 0 || wanted > last }

end Program

end ConcurrencyFaults
