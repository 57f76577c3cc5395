import ConcurrencyFaults.MemorySite
import ConcurrencyFaults.Report

/-!
# Requests

Most operators change one candidate at a time.  Each requested position is claimed first, so that no
position is used twice in a run; what cannot be claimed leaves a warning and is passed over.  A run
counts as a change as soon as one of its requests does.
-/

namespace ConcurrencyFaults

namespace Work

/-- Handles requests in order and says whether one of them changed something. -/
def anyOf {Request : Type} (requests : List Request) (handle : Request → Work Bool) : Work Bool :=
  requests.foldlM (fun changed request => return (← handle request) || changed) false

/-- Handles the memory sites at the requested positions.  Each is handled together with the number
of its request. -/
def anySite (pass : String) (sites : List MemorySite) (positions : List Nat)
    (handle : Nat → MemorySite → Work Bool) : Work Bool :=
  anyOf positions.zipIdx fun (position, request) => do
    if ← claimOrWarn pass position sites.length then
      match sites[position]? with
      | some site => handle request site
      | none => return false
    else
      return false

/-- Handles the found calls at the requested positions, leaving out those that were edited before.
Each is handled together with the number of its request. -/
def anyCall (pass : String) (found : FoundCalls) (positions : List Nat)
    (handle : Nat → CallSite → Work Bool) : Work Bool :=
  anyOf positions.zipIdx fun (position, request) => do
    match ← claimCall pass found position with
    | none => return false
    | some site => if ← isUntouched pass site then handle request site else return false

/-- The entry for a change in a function. -/
def recordChange (pass : String) (kind : EntryKind) (function : FunctionId) (message : String)
    (location : Option Nat := none) : Work Unit :=
  record { kind, function := some function, location, pass := some pass, message }

/-- A report on candidates, with the warnings it gives rise to. -/
def reportSites (pass : String) (sites : List (Option Location × String)) (verbose : Bool) :
    Work Report := do
  let (report, warnings) := Report.sites pass sites verbose
  warnings.forM record
  return report

/-- A report on found calls, each with its target. -/
def reportCalls (pass : String) (search : CallSearch) (verbose : Bool) : Work Report := do
  let found ← query search.inProgram
  reportSites pass (found.sites.map fun site => (site.location, site.name)) verbose

end Work

end ConcurrencyFaults
