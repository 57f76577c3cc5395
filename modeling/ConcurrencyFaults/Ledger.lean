import ConcurrencyFaults.Journal.Tally

/-!
# The ledger of a run

A ledger keeps the journal of a run together with what must not be edited twice: the calls that were
edited, and the positions that each operator has used up.  Positions of different operators are
independent of each other.
-/

namespace ConcurrencyFaults

/-- What became of a request for a position. -/
inductive Claim where
  /-- The position is a candidate's, and now used up. -/
  | claimed
  | outOfBounds
  /-- The position was used up before. -/
  | alreadyMutated
deriving DecidableEq, Repr, Inhabited

def Claim.text : Claim → String
  | .claimed => "claimed"
  | .outOfBounds => "out of bounds"
  | .alreadyMutated => "already mutated"

/-- The journal, the edited calls and the used positions of a run. -/
structure Ledger where
  journal : Journal := .empty
  /-- Each edited call once. -/
  edited : List Handle := []
  /-- Each used position once, with the operator that used it. -/
  used : List (String × Nat) := []
deriving DecidableEq, Repr, Inhabited

namespace Ledger

def empty : Ledger := {}

def record (ledger : Ledger) (entry : Entry) : Ledger :=
  { ledger with journal := ledger.journal.record entry }

def warn (ledger : Ledger) (message : String) : Ledger := ledger.record (.warning message)

/-! ## Edited calls -/

def isEdited (ledger : Ledger) (handle : Handle) : Bool := ledger.edited.contains handle

/-- Marks a call as edited; a call that is marked already stays marked once. -/
def markEdited (ledger : Ledger) (handle : Handle) : Ledger :=
  if ledger.isEdited handle then ledger else { ledger with edited := handle :: ledger.edited }

/-! ## Used positions -/

def isUsed (ledger : Ledger) (pass : String) (position : Nat) : Bool :=
  ledger.used.contains (pass, position)

/-- Uses a position up, provided that it is below the number of candidates and not used yet. -/
def claim (ledger : Ledger) (pass : String) (position candidates : Nat) : Claim × Ledger :=
  if position ≥ candidates then (.outOfBounds, ledger)
  else if ledger.isUsed pass position then (.alreadyMutated, ledger)
  else (.claimed, { ledger with used := (pass, position) :: ledger.used })

/-- The warning about a request that came to nothing. -/
def refusal? (pass : String) (position candidates : Nat) : Claim → Option String
  | .claimed => none
  | .outOfBounds => some s!"{pass}: position {position} is out of bounds ({candidates} candidates)"
  | .alreadyMutated => some s!"{pass}: position {position} was already mutated"

/-- Claims a position and warns if that fails. -/
def claimOrWarn (ledger : Ledger) (pass : String) (position candidates : Nat) : Bool × Ledger :=
  let (claim, ledger) := ledger.claim pass position candidates
  match refusal? pass position candidates claim with
  | none => (true, ledger)
  | some warning => (false, ledger.warn warning)

end Ledger

end ConcurrencyFaults
