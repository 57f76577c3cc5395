import ConcurrencyFaults.Program.Basic

/-!
# Memory sites

Lists of the instructions that touch memory, each in visitation order.  The place of an instruction
in such a list is the position by which requests name it.
-/

namespace ConcurrencyFaults

/-- How an instruction touches memory. -/
inductive MemoryKind where
  | fence
  | load
  | store
  | compareExchange
  | update
  /-- A call of a memory copy that carries a volatile flag among its arguments. -/
  | copy
deriving DecidableEq, Repr, Inhabited

def MemoryKind.text : MemoryKind → String
  | .fence => "fence"
  | .load => "load"
  | .store => "store"
  | .compareExchange => "cmpxchg"
  | .update => "atomicrmw"
  | .copy => "memcpy"

/-- An instruction that touches memory. -/
structure MemorySite where
  handle : Handle
  function : FunctionId
  kind : MemoryKind
  location : Option Location
deriving DecidableEq, Repr, Inhabited

namespace MemorySite

/-- The argument of a memory copy that says whether it is volatile. -/
def copyFlagArgument : Nat := 4

/-- Every instruction of which `select` names a kind. -/
def collect (program : Program) (select : Operation → Option MemoryKind) : List MemorySite :=
  program.instructions.filterMap fun (function, handle, instruction) =>
    (select instruction.operation).map fun kind =>
      { handle, function, kind, location := instruction.location }

def fenceKind? : Operation → Option MemoryKind
  | .fence _ _ => some .fence
  | _ => none

/-- Loads, or of them only the atomic ones. -/
def loadKind? (onlyAtomic : Bool) : Operation → Option MemoryKind
  | .load _ _ _ order _ => if !onlyAtomic || order.isAtomic then some .load else none
  | _ => none

/-- Stores, or of them only the atomic ones. -/
def storeKind? (onlyAtomic : Bool) : Operation → Option MemoryKind
  | .store _ _ _ order _ => if !onlyAtomic || order.isAtomic then some .store else none
  | _ => none

def compareExchangeKind? : Operation → Option MemoryKind
  | .compareExchange _ _ _ _ _ _ _ _ => some .compareExchange
  | _ => none

def updateKind? : Operation → Option MemoryKind
  | .update _ _ _ _ _ _ _ => some .update
  | _ => none

/-- Whether an operation is a direct call of a memory copy whose volatile flag is one. -/
def isVolatileCopy (program : Program) (operation : Operation) : Bool :=
  match operation.directCallee?.bind program.function? with
  | none => false
  | some target =>
      "llvm.memcpy".toList.isPrefixOf target.name.toList &&
        ((operation.arguments?.bind (·[copyFlagArgument]?)).bind Operand.constant?).bind
          Constant.value? == some 1

def volatileKind? (program : Program) : Operation → Option MemoryKind
  | .load _ _ true _ _ => some .load
  | .store _ _ true _ _ => some .store
  | .compareExchange _ _ _ _ _ _ _ true => some .compareExchange
  | .update _ _ _ _ _ _ true => some .update
  | operation => if isVolatileCopy program operation then some .copy else none

def fences (program : Program) : List MemorySite := collect program fenceKind?

def loads (program : Program) (onlyAtomic : Bool) : List MemorySite :=
  collect program (loadKind? onlyAtomic)

def stores (program : Program) (onlyAtomic : Bool) : List MemorySite :=
  collect program (storeKind? onlyAtomic)

def compareExchanges (program : Program) : List MemorySite := collect program compareExchangeKind?

def updates (program : Program) : List MemorySite := collect program updateKind?

/-- The volatile accesses. -/
def volatiles (program : Program) : List MemorySite := collect program (volatileKind? program)

end MemorySite

end ConcurrencyFaults
