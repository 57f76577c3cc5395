import ConcurrencyFaults.Program.Edit

/-!
# Drafting a function body

A draft is a function under construction: it appends instructions to one current block and gives
each the current source location, unless the instruction brings one of its own.
-/

namespace ConcurrencyFaults

/-- Where the next instruction of a body goes, and the location it receives. -/
structure Draft where
  function : FunctionId
  current : Option BlockId := none
  location : Option Location := none
deriving DecidableEq, Repr

namespace Draft

/-- A draft of a new function, which has no block yet. -/
def ofNewFunction (program : Program) (name : String) (result : Ty) : Draft × Program :=
  let (function, program) := program.addFunction name result []
  ({ function }, program)

/-- A draft that goes on at the last block of an existing function. -/
def ofFunction (program : Program) (function : FunctionId) : Except EditError Draft :=
  (program.function function).map fun found =>
    { function, current := found.blocks.getLast?.map Block.id }

/-! ## Blocks and locations -/

/-- Appends a block and stays at the current one. -/
def createBlock (draft : Draft) (label : String) : Edit BlockId :=
  Program.addBlock draft.function label

/-- Appends a block and goes on there. -/
def startBlock (draft : Draft) (label : String) : Edit (BlockId × Draft) := do
  let block ← draft.createBlock label
  return (block, { draft with current := some block })

def switchTo (draft : Draft) (block : BlockId) : Draft := { draft with current := some block }

def located (draft : Draft) (location : Option Location) : Draft := { draft with location }

/-! ## Instructions -/

/-- Appends an instruction to the current block. -/
def emit (draft : Draft) (instruction : Instruction) : Edit Handle := do
  let some block := draft.current
    | throw (.noCurrentBlock draft.function)
  let location := instruction.location.or draft.location
  Program.push draft.function block { instruction with location }

/-- Appends an operation to the current block. -/
def append (draft : Draft) (operation : Operation) : Edit Handle :=
  draft.emit (.ofOperation operation)

/-- The result type of a call is what the called function returns. -/
def resultOf (function : FunctionId) : Edit Ty := do
  return (← Edit.query (·.function function)).result

def call (draft : Draft) (function : FunctionId) (arguments : List Operand)
    (attributes : CallAttributes := .none) : Edit Handle := do
  let result ← resultOf function
  draft.emit { operation := .call (.direct function) arguments result, attributes }

def invoke (draft : Draft) (function : FunctionId) (arguments : List Operand)
    (normal unwind : BlockId) : Edit Handle := do
  let result ← resultOf function
  draft.append (.invoke (.direct function) arguments result normal unwind)

def load (draft : Draft) (pointer : Operand) (type : Ty) (order : MemoryOrder := .notAtomic)
    (scope : SyncScope := .crossThread) : Edit Handle :=
  draft.append (.load pointer type false order scope)

def volatileLoad (draft : Draft) (pointer : Operand) (type : Ty) : Edit Handle :=
  draft.append (.load pointer type true .notAtomic .crossThread)

def store (draft : Draft) (pointer value : Operand) (order : MemoryOrder := .notAtomic)
    (scope : SyncScope := .crossThread) : Edit Handle :=
  draft.append (.store pointer value false order scope)

def volatileStore (draft : Draft) (pointer value : Operand) : Edit Handle :=
  draft.append (.store pointer value true .notAtomic .crossThread)

/-- Appends a compare-and-exchange that every thread sees. -/
def compareExchange (draft : Draft) (pointer expected new : Operand) (type : Ty)
    (success failure : MemoryOrder) : Edit Handle :=
  draft.append (.compareExchange pointer expected new type success failure .crossThread false)

/-- Appends a read-modify-write that every thread sees. -/
def update (draft : Draft) (operator : UpdateOperator) (pointer value : Operand) (type : Ty)
    (order : MemoryOrder) : Edit Handle :=
  draft.append (.update operator pointer value type order .crossThread false)

end Draft

end ConcurrencyFaults
