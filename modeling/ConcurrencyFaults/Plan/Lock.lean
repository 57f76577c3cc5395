import ConcurrencyFaults.Plan.Basic

/-!
# Plans for lock pairs

Pairs are named by two numbers, a category or a function and a position in it.  Swapping takes two
pairs at a time.  Shifting takes a direction for each lock and unlock it is to move, splitting two
offsets for each pair.
-/

namespace ConcurrencyFaults

/-- What the first number of a pair's name means. -/
inductive PairAddressing where
  | category
  | function
deriving DecidableEq, Repr, Inhabited

def PairAddressing.text : PairAddressing → String
  | .category => "category"
  | .function => "function"

/-- What to do with which lock pairs.  Without a mode, pairs are only reported. -/
structure LockPlan where
  mode : Option LockMode := none
  addressing : PairAddressing := .category
  positions : List Nat := []
  /-- How far the locks move, request by request. -/
  lockDirections : List Int := []
  /-- How far the unlocks move, request by request. -/
  unlockDirections : List Int := []
  /-- Offsets after the lock: of the new unlock and of the new lock, request by request. -/
  splitOffsets : List Nat := []
  verbose : Bool := false
deriving DecidableEq, Repr, Inhabited

namespace LockPlan

/-- The plan without positions that some switches ask for. -/
def ofFlags (remove swap shift split : Bool) : Except PlanError LockPlan :=
  let flags := [(remove, LockMode.remove), (swap, .swap), (shift, .shift), (split, .split)]
  match (flags.filter Prod.fst).map Prod.snd with
  | [] => return {}
  | [mode] => return { mode := some mode }
  | first :: second :: _ => throw (.twoModes first second)

/-- Positions come in pairs, for swaps in pairs of pairs. -/
def checkPositions (mode : LockMode) (positions : List Nat) : Except PlanError Unit := do
  if positions.isEmpty then
    throw (.noPositions mode)
  if mode = .swap then
    if positions.length % 4 ≠ 0 then
      throw (.incompleteSwap positions.length)
  else if positions.length % 2 ≠ 0 then
    throw (.oddPositions mode positions.length)

/-- Directions are for shifts, and a shift needs some. -/
def checkDirections (mode : LockMode) (lock unlock : List Int) : Except PlanError Unit := do
  if mode = .shift then
    if lock.isEmpty && unlock.isEmpty then
      throw .noDirections
  else
    if !lock.isEmpty then
      throw (.unusedDirections "lock" mode)
    if !unlock.isEmpty then
      throw (.unusedDirections "unlock" mode)

/-- Offsets are for splits, and a split needs them in pairs. -/
def checkOffsets (mode : LockMode) (offsets : List Nat) : Except PlanError Unit := do
  if mode = .split then
    if offsets.isEmpty then
      throw .noSplitOffsets
    if offsets.length % 2 ≠ 0 then
      throw (.oddSplitOffsets offsets.length)
  else if !offsets.isEmpty then
    throw (.unusedSplitOffsets mode)

/-- Refuses a plan that contradicts itself.  Without a mode nothing is asked of it. -/
def check (plan : LockPlan) : Except PlanError Unit :=
  match plan.mode with
  | none => return ()
  | some mode => do
      checkPositions mode plan.positions
      checkDirections mode plan.lockDirections plan.unlockDirections
      checkOffsets mode plan.splitOffsets

end LockPlan

end ConcurrencyFaults
