import ConcurrencyFaults.Program.Edit
import ConcurrencyFaults.Symbol.Key

/-!
# Call sites

A call site is a snapshot of a direct call or invoke.  Its handle tells whether the call is still
there, and what differs between the two forms of a call is said here once: how a replacement is
built, and how the block of a removed invoke stays terminated.
-/

namespace ConcurrencyFaults

/-- The form of a call with the continuations of an invoke. -/
inductive SiteForm where
  | call
  | invoke (normal unwind : BlockId)
deriving DecidableEq, Repr, Inhabited

namespace SiteForm

/-- The form without the continuations. -/
def form : SiteForm → CallForm
  | .call => .call
  | .invoke _ _ => .invoke

def normal? : SiteForm → Option BlockId
  | .call => none
  | .invoke normal _ => some normal

def unwind? : SiteForm → Option BlockId
  | .call => none
  | .invoke _ unwind => some unwind

/-- A call of this form. -/
def operation (form : SiteForm) (callee : Callee) (arguments : List Operand) (result : Ty) :
    Operation :=
  match form with
  | .call => .call callee arguments result
  | .invoke normal unwind => .invoke callee arguments result normal unwind

end SiteForm

/-- What was known of a direct call when it was captured. -/
structure CallSite where
  handle : Handle
  function : FunctionId
  block : BlockId
  /-- The function that is called. -/
  target : FunctionId
  /-- The symbol of the target. -/
  symbol : String
  /-- The key of the target. -/
  name : String
  arguments : List Operand
  result : Ty
  attributes : CallAttributes
  location : Option Location
  form : SiteForm
deriving DecidableEq, Repr, Inhabited

namespace CallSite

/-- The parts of a call or an invoke. -/
def callParts? : Operation → Option (Callee × List Operand × Ty × SiteForm)
  | .call callee arguments result => some (callee, arguments, result, .call)
  | .invoke callee arguments result normal unwind =>
      some (callee, arguments, result, .invoke normal unwind)
  | _ => none

/-- Captures the call at `handle`.  Indirect calls have no site. -/
def capture (program : Program) (handle : Handle) (demangled : Bool) :
    Except EditError (Option CallSite) := do
  let placed ← program.placed handle
  match callParts? placed.instruction.operation with
  | none => throw (.notACallSite handle)
  | some (.indirect _, _) => return none
  | some (.direct target, arguments, result, form) =>
      let symbol := (← program.function target).name
      return some {
        handle, function := placed.function, block := placed.block, target, symbol
        name := Symbol.key symbol demangled
        arguments, result, form
        attributes := placed.instruction.attributes
        location := placed.instruction.location }

def argumentCount (site : CallSite) : Nat := site.arguments.length

def isInvoke (site : CallSite) : Bool := site.form.form == .invoke

/-- A site holds as long as its handle is live and names a call of the same function. -/
def validate (site : CallSite) (program : Program) : Except EditError Unit := do
  let instruction ← program.instruction site.handle
  if instruction.operation.directCallee? ≠ some site.target then
    throw (.staleHandle site.handle)

def isLive (site : CallSite) (program : Program) : Bool := (site.validate program).isOk

/-- A call of `target` in the form of this site, with its attributes and location. -/
def cloneWith (site : CallSite) (target : FunctionId) (arguments : List Operand) (result : Ty) :
    Instruction where
  operation := site.form.operation (.direct target) arguments result
  attributes := site.attributes
  location := site.location

/-- A plain call of this site's target. -/
def asCall (site : CallSite) (arguments : List Operand) : Instruction where
  operation := .call (.direct site.target) arguments site.result
  attributes := site.attributes
  location := site.location

/-- Appends a branch to the normal continuation to the block of an invoke, so that the block stays
terminated when the invoke goes.  Plain calls need none. -/
def branchToNormal (site : CallSite) : Edit (Option Handle) :=
  match site.form with
  | .call => return none
  | .invoke normal _ => do
      let (function, block) ← Edit.query (·.parent site.handle)
      let branch : Instruction := { operation := .branch normal, location := site.location }
      return some (← Program.push function block branch)

/-- Removes a call.  What still reads its result reads a zero of `width` bits. -/
def remove (site : CallSite) (width : Nat) (signed : Bool) : Edit Removal := do
  Edit.query site.validate
  let _ ← site.branchToNormal
  Program.eraseOrZero site.handle width signed

/-- Puts a plain call in the place of a call. -/
def replace (site : CallSite) (instruction : Instruction) : Edit Handle := do
  Edit.query site.validate
  let _ ← site.branchToNormal
  Program.replaceWith site.handle instruction

end CallSite

end ConcurrencyFaults
