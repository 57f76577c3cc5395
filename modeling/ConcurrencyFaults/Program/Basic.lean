import ConcurrencyFaults.Instruction

/-!
# Programs

A program is a list of functions together with the storage of their instructions.  Blocks fix the
order of instructions by listing handles; the instructions themselves live in numbered slots.  A
slot knows the function and block of the instruction in it, and how often it was emptied before.

The visitation order of a function is its blocks in layout order and, within each, the instructions
in block order.  Positions and distances count single steps along it.
-/

namespace ConcurrencyFaults

/-- Why a query or an edit of a program was refused. -/
inductive EditError where
  /-- The handle outlived its instruction, or was never issued. -/
  | staleHandle (handle : Handle)
  | unknownFunction (function : FunctionId)
  | unknownBlock (function : FunctionId) (block : BlockId)
  /-- A distance was asked for between instructions of two functions. -/
  | differentFunctions (first second : Handle)
  /-- The result of an instruction to be erased is still read. -/
  | hasUses (handle : Handle) (uses : Nat)
  | notACallSite (handle : Handle)
  /-- The block that a slot names does not list the instruction. -/
  | unlistedInBlock (handle : Handle) (block : BlockId)
  | unlistedInFunction (handle : Handle)
  /-- A body was extended before any block was chosen. -/
  | noCurrentBlock (function : FunctionId)
deriving DecidableEq, Repr

def EditError.message : EditError → String
  | .staleHandle handle => "Stale instruction handle " ++ handle.text
  | .unknownFunction function => s!"Unknown function index {function}"
  | .unknownBlock function block => s!"Unknown block {block} in function {function}"
  | .differentFunctions first second =>
      "Instructions " ++ first.text ++ " and " ++ second.text ++ " are in different functions"
  | .hasUses handle uses => "Instruction " ++ handle.text ++ s!" still has {uses} use(s)"
  | .notACallSite handle => "Instruction " ++ handle.text ++ " is not a call site"
  | .unlistedInBlock handle block =>
      "instruction " ++ handle.text ++ " is not listed in its parent block " ++ blockText block
  | .unlistedInFunction handle => "instruction " ++ handle.text ++ " is not listed in its function"
  | .noCurrentBlock function => "no current block in function " ++ functionText function

/-- A straight run of instructions, given by their handles in order. -/
structure Block where
  id : BlockId
  label : String
  handles : List Handle := []
deriving DecidableEq, Repr, Inhabited

namespace Block

/-- The place of an instruction in the block. -/
def position? (block : Block) (handle : Handle) : Option Nat := block.handles.findIdx? (· == handle)

def last? (block : Block) : Option Handle := block.handles.getLast?

end Block

/-- A named function.  Without blocks it is a declaration. -/
structure Function where
  id : FunctionId
  name : String
  result : Ty
  parameters : List Ty
  blocks : List Block := []
deriving DecidableEq, Repr, Inhabited

namespace Function

def isDeclaration (function : Function) : Bool := function.blocks.isEmpty

/-- The instructions in visitation order. -/
def handles (function : Function) : List Handle := function.blocks.flatMap Block.handles

/-- Changes one block; nothing happens if it does not exist. -/
def modifyBlock (function : Function) (block : BlockId) (change : Block → Block) : Function :=
  { function with blocks := function.blocks.modify block change }

end Function

/-- An instruction with the function and block that list it. -/
structure Placed where
  instruction : Instruction
  function : FunctionId
  block : BlockId
deriving DecidableEq, Repr, Inhabited

/-- Room for one instruction.  The generation counts how often the slot was emptied. -/
structure Slot where
  generation : Nat := 0
  entry : Option Placed := none
deriving DecidableEq, Repr, Inhabited

/-- Generations are counted in 32 bits and start over after the last. -/
def Slot.generationLimit : Nat := Nat.pow 2 32

/-- The slot after its instruction was taken out. -/
def Slot.emptied (slot : Slot) : Slot where
  generation := (slot.generation + 1) % Slot.generationLimit
  entry := none

/-- Functions with the storage of their instructions. -/
structure Program where
  name : String
  functions : List Function := []
  slots : List Slot := []
  /-- The empty slots, the one to be filled next in front. -/
  free : List Nat := []
deriving DecidableEq, Repr, Inhabited

namespace Program

/-! ## Looking things up -/

def function? (program : Program) (function : FunctionId) : Option Function :=
  program.functions[function]?

/-- The function itself, or the complaint that it does not exist. -/
def function (program : Program) (function : FunctionId) : Except EditError Function :=
  match program.function? function with
  | some found => .ok found
  | none => .error (.unknownFunction function)

/-- The first function of this name. -/
def functionNamed? (program : Program) (name : String) : Option FunctionId :=
  (program.functions.find? (·.name == name)).map Function.id

def block? (program : Program) (function : FunctionId) (block : BlockId) : Option Block :=
  (program.function? function).bind (·.blocks[block]?)

/-- What a handle names, provided that it is of the slot's present generation. -/
def placed? (program : Program) (handle : Handle) : Option Placed :=
  (program.slots[handle.slot]?.filter (·.generation == handle.generation)).bind Slot.entry

def placed (program : Program) (handle : Handle) : Except EditError Placed :=
  match program.placed? handle with
  | some placed => .ok placed
  | none => .error (.staleHandle handle)

def isLive (program : Program) (handle : Handle) : Bool := (program.placed? handle).isSome

def instruction? (program : Program) (handle : Handle) : Option Instruction :=
  (program.placed? handle).map Placed.instruction

def instruction (program : Program) (handle : Handle) : Except EditError Instruction :=
  (program.placed handle).map Placed.instruction

/-- The function and block that hold an instruction. -/
def parent (program : Program) (handle : Handle) : Except EditError (FunctionId × BlockId) :=
  (program.placed handle).map fun placed => (placed.function, placed.block)

/-- The symbol that a direct call names; `none` for other instructions. -/
def calleeName (program : Program) (handle : Handle) : Except EditError (Option String) :=
  (program.instruction handle).map fun instruction =>
    (instruction.operation.directCallee?.bind program.function?).map Function.name

/-! ## Visitation order -/

/-- The instructions of a function in visitation order. -/
def handlesOf (program : Program) (function : FunctionId) : Except EditError (List Handle) :=
  (program.function function).map Function.handles

/-- The live instructions of a function with their handles, in visitation order. -/
def instructionsIn (program : Program) (function : Function) : List (Handle × Instruction) :=
  function.handles.filterMap fun handle => (program.instruction? handle).map (handle, ·)

/-- Every live instruction with its function and handle, in visitation order. -/
def instructions (program : Program) : List (FunctionId × Handle × Instruction) :=
  program.functions.flatMap fun function =>
    (program.instructionsIn function).map (function.id, ·)

/-- The instruction that ends a block, if the block is ended. -/
def terminator? (program : Program) (function : FunctionId) (block : BlockId) :
    Except EditError (Option Handle) := do
  let found ← program.function function
  match found.blocks[block]? with
  | none => throw (.unknownBlock function block)
  | some block =>
      return block.last?.filter fun handle =>
        (program.instruction? handle).any Instruction.isTerminator

/-! ## Uses -/

/-- The instructions of the function that holds `handle`, which are all that may read its result. -/
def readers (program : Program) (handle : Handle) :
    Except EditError (List (Handle × Instruction)) := do
  let (function, _) ← program.parent handle
  let handles ← program.handlesOf function
  handles.mapM fun reader => return (reader, ← program.instruction reader)

/-- The instructions that read the result of `handle`, in visitation order. -/
def users (program : Program) (handle : Handle) : Except EditError (List Handle) :=
  (program.readers handle).map fun readers =>
    (readers.filter fun reader => reader.2.operation.operands.any (·.uses handle)).map Prod.fst

/-- How many operands read the result of `handle`. -/
def useCount (program : Program) (handle : Handle) : Except EditError Nat :=
  (program.readers handle).map fun readers =>
    (readers.flatMap fun reader => reader.2.operation.operands).countP (·.uses handle)

end Program

end ConcurrencyFaults
