import ConcurrencyFaults.CallSearch
import ConcurrencyFaults.Ledger

/-!
# Workspaces

An operator works on a program with a ledger at its side.  It either finishes with an answer or is
stopped by an edit that was refused; the workspace it leaves behind shows all that was done up to
that point.
-/

namespace ConcurrencyFaults

/-- A program under mutation and the ledger of the run. -/
structure Workspace where
  program : Program
  ledger : Ledger := .empty
deriving DecidableEq, Repr, Inhabited

/-- Work that changes a workspace and may be stopped. -/
abbrev Work := EStateM EditError Workspace

namespace Work

/-- Asks the program a question that may be refused. -/
def query {Answer : Type} (question : Program → Except EditError Answer) : Work Answer := do
  MonadExcept.ofExcept (question (← get).program)

/-- Edits the program and leaves the ledger alone. -/
def edit {Answer : Type} (change : Edit Answer) : Work Answer := fun workspace =>
  match change workspace.program with
  | .ok answer program => .ok answer { workspace with program }
  | .error problem program => .error problem { workspace with program }

/-- Changes the program by an edit that is never refused. -/
def update {Answer : Type} (change : Program → Answer × Program) : Work Answer :=
  modifyGet fun workspace =>
    let (answer, program) := change workspace.program
    (answer, { workspace with program })

/-- Changes the ledger and leaves the program alone. -/
def noteWith {Answer : Type} (change : Ledger → Answer × Ledger) : Work Answer :=
  modifyGet fun workspace =>
    let (answer, ledger) := change workspace.ledger
    (answer, { workspace with ledger })

def record (entry : Entry) : Work Unit := noteWith fun ledger => ((), ledger.record entry)

def warn (message : String) : Work Unit := record (.warning message)

def markEdited (handle : Handle) : Work Unit :=
  noteWith fun ledger => ((), ledger.markEdited handle)

def isEdited (handle : Handle) : Work Bool := return (← get).ledger.isEdited handle

/-- Claims a position and warns if that fails. -/
def claimOrWarn (pass : String) (position candidates : Nat) : Work Bool :=
  noteWith (·.claimOrWarn pass position candidates)

/-- Claims the number of a found call and answers the call; a refused claim leaves a warning. -/
def claimCall (pass : String) (found : FoundCalls) (position : Nat) : Work (Option CallSite) := do
  if ← claimOrWarn pass position found.size then
    return found.get? position
  else
    return none

/-- Whether a call is as it was captured and was not edited in this run.  If not, a warning says
why it is skipped. -/
def isUntouched (pass : String) (site : CallSite) : Work Bool := do
  if ← isEdited site.handle then
    warn (pass ++ ": call " ++ site.handle.text ++ " was already mutated in this run, skipping")
    return false
  match site.validate (← get).program with
  | .ok () => return true
  | .error problem =>
      warn (pass ++ ": " ++ problem.message ++ ", skipping")
      return false

end Work

end ConcurrencyFaults
