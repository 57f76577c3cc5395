import ConcurrencyFaults.Plan.Basic

/-!
# Plans for single calls

Semaphores, joins, signals, waits and yields are calls, each named by one position.
-/

namespace ConcurrencyFaults

/-! ## Semaphores -/

/-- Which semaphores receive another initial value. -/
structure SemaphorePlan where
  modify : Bool := false
  positions : List Nat := []
  /-- New values, one for each request. -/
  values : List Nat := []
  /-- The value of requests that have none of their own. -/
  fallback : Nat := 0
  verbose : Bool := false
deriving DecidableEq, Repr, Inhabited

/-- The largest initial value. -/
def SemaphorePlan.maxValue : Nat := Nat.pow 2 31 - 1

def SemaphorePlan.check (plan : SemaphorePlan) : Except PlanError Unit :=
  if plan.modify && plan.verbose then throw (.verboseChange "when modifying") else return ()

/-! ## Joins -/

inductive JoinChange where
  | remove
  /-- Sleeps for some seconds instead. -/
  | sleep (seconds : Nat)
deriving DecidableEq, Repr, Inhabited

/-- What to do with which joins of which families.  Without a change, they are only reported. -/
structure JoinPlan where
  posix : Bool := true
  standard : Bool := false
  change : Option JoinChange := none
  positions : List Nat := []
  verbose : Bool := false
deriving DecidableEq, Repr, Inhabited

namespace JoinPlan

/-- How long a sleep takes if nothing else is asked for. -/
def defaultSeconds : Nat := 1

/-- The plan without positions that some switches ask for. -/
def ofFlags (remove replace : Bool) (seconds : Option Nat) : Except PlanError JoinPlan :=
  match remove, replace with
  | true, true => throw .twoJoinChanges
  | true, false => return { change := some .remove }
  | false, true => return { change := some (.sleep (seconds.getD defaultSeconds)) }
  | false, false => return {}

def check (plan : JoinPlan) : Except PlanError Unit := do
  if !plan.posix && !plan.standard then
    throw .noJoinFamily
  match plan.change with
  | some .remove => if plan.verbose then throw (.verboseChange "with remove")
  | some (.sleep _) => if plan.verbose then throw (.verboseChange "with replace")
  | none => return ()

end JoinPlan

/-! ## Signals -/

inductive SignalChange where
  | remove
  /-- Exchanges signal and broadcast. -/
  | swap
deriving DecidableEq, Repr, Inhabited

/-- What to do with which signals.  Without a change, they are only reported. -/
structure SignalPlan where
  change : Option SignalChange := none
  positions : List Nat := []
  /-- Whether a swap was asked for too and gave way to the removal. -/
  overridden : Bool := false
  verbose : Bool := false
deriving DecidableEq, Repr, Inhabited

/-- The plan without positions that some switches ask for.  Removal wins over swapping. -/
def SignalPlan.ofFlags (remove swap : Bool) : SignalPlan where
  change := if remove then some .remove else if swap then some .swap else none
  overridden := remove && swap

/-! ## Waits -/

inductive WaitChange where
  | remove
  /-- Makes a timed wait an untimed one. -/
  | untime
  /-- Moves the deadline of a timed wait by seconds and nanoseconds, one of each for a request. -/
  | timeout (seconds nanoseconds : List Int) (insertPoints : List Nat)
deriving DecidableEq, Repr, Inhabited

/-- What to do with which waits.  Without a change, they are only reported. -/
structure WaitPlan where
  change : Option WaitChange := none
  positions : List Nat := []
  verbose : Bool := false
deriving DecidableEq, Repr, Inhabited

def WaitPlan.check (plan : WaitPlan) : Except PlanError Unit :=
  match plan.change with
  | none => return ()
  | some change => do
      if plan.verbose then
        throw (.verboseChange "when mutating")
      match change with
      | .remove => requirePositions plan.positions "wait removal"
      | .untime => requirePositions plan.positions "wait switching"
      | .timeout seconds nanoseconds _ =>
          requirePositions plan.positions "timeout modification"
          if seconds.isEmpty || nanoseconds.isEmpty then
            throw .incompleteTimeout

/-! ## Yields -/

/-- Which yields to remove. -/
structure YieldPlan where
  remove : Bool := false
  positions : List Nat := []
  verbose : Bool := false
deriving DecidableEq, Repr, Inhabited

def YieldPlan.check (plan : YieldPlan) : Except PlanError Unit := do
  if plan.remove then
    if plan.verbose then
      throw (.verboseChange "with remove")
    requirePositions plan.positions "yield removal"

end ConcurrencyFaults
