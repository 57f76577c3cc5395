import ConcurrencyFaults.CallSite

/-!
# Searching calls by name

A search collects the direct calls of the named functions.  The calls that it finds form one
numbered list, all plain calls before all invokes and each kind in visitation order; requests name
calls by their place in it.
-/

namespace ConcurrencyFaults

/-- The calls that a search found, each form in visitation order. -/
structure FoundCalls where
  calls : List CallSite := []
  invokes : List CallSite := []
deriving DecidableEq, Repr, Inhabited

namespace FoundCalls

/-- Splits sites by their form. -/
def ofSites (sites : List CallSite) : FoundCalls where
  calls := sites.filter fun site => !site.isInvoke
  invokes := sites.filter CallSite.isInvoke

/-- All sites in the order of their numbers. -/
def sites (found : FoundCalls) : List CallSite := found.calls ++ found.invokes

def size (found : FoundCalls) : Nat := found.calls.length + found.invokes.length

def isEmpty (found : FoundCalls) : Bool := found.calls.isEmpty && found.invokes.isEmpty

/-- The site of a number. -/
def get? (found : FoundCalls) (number : Nat) : Option CallSite :=
  if number < found.calls.length then found.calls[number]?
  else found.invokes[number - found.calls.length]?

/-- The sites whose target has this key. -/
def named (found : FoundCalls) (name : String) : List CallSite :=
  found.sites.filter (·.name == name)

/-- The sites of one function. -/
def inFunction (found : FoundCalls) (function : FunctionId) : FoundCalls :=
  .ofSites (found.sites.filter (·.function == function))

/-- Puts a function into an ascending list, unless it is there already. -/
def insertAscending (function : FunctionId) : List FunctionId → List FunctionId
  | [] => [function]
  | first :: rest =>
      if function < first then function :: first :: rest
      else if function = first then first :: rest
      else first :: insertAscending function rest

/-- The functions that hold a site, each once and in ascending order. -/
def functions (found : FoundCalls) : List FunctionId :=
  (found.sites.map CallSite.function).foldr insertAscending []

/-- The sites grouped by function, in ascending order of the functions. -/
def perFunction (found : FoundCalls) : List (FunctionId × FoundCalls) :=
  found.functions.map fun function => (function, found.inFunction function)

end FoundCalls

/-- Which calls to look for. -/
structure CallSearch where
  names : List String
  /-- Whether symbols are made readable before they are compared. -/
  demangled : Bool := false
deriving DecidableEq, Repr, Inhabited

namespace CallSearch

def matchesKey (search : CallSearch) (key : String) : Bool := search.names.contains key

/-- The site at a handle, if it is a direct call of a function that is looked for. -/
def siteAt (search : CallSearch) (program : Program) (handle : Handle) :
    Except EditError (Option CallSite) := do
  let instruction ← program.instruction handle
  if instruction.operation.callForm?.isNone then
    return none
  let site ← CallSite.capture program handle search.demangled
  return site.filter fun site => search.matchesKey site.name

/-- The matching calls of one function, in visitation order. -/
def sitesIn (search : CallSearch) (program : Program) (function : FunctionId) :
    Except EditError (List CallSite) := do
  let handles ← program.handlesOf function
  return (← handles.mapM (search.siteAt program)).filterMap id

/-- The matching calls of one function. -/
def inFunction (search : CallSearch) (program : Program) (function : FunctionId) :
    Except EditError FoundCalls :=
  (search.sitesIn program function).map .ofSites

/-- The matching calls of the whole program. -/
def inProgram (search : CallSearch) (program : Program) : Except EditError FoundCalls :=
  (program.functions.mapM fun function => search.sitesIn program function.id).map fun sites =>
    .ofSites sites.flatten

end CallSearch

end ConcurrencyFaults
