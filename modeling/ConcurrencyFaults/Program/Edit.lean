import ConcurrencyFaults.Program.Walk

/-!
# Edits

An edit runs on a program and either answers or is refused; in both cases it hands back the program
as it then is.  Storage is reused: an erased instruction leaves its slot to the next one that is
inserted, under a new generation.
-/

namespace ConcurrencyFaults

/-- A change of a program that may be refused.  What was changed before a refusal stays changed. -/
abbrev Edit := EStateM EditError Program

/-- Asks the program a question that may be refused. -/
def Edit.query {Answer : Type} (question : Program → Except EditError Answer) : Edit Answer := do
  MonadExcept.ofExcept (question (← get))

/-- How an instruction left the program. -/
inductive Removal where
  /-- Nothing read its result. -/
  | erased
  /-- Its uses became a zero constant first. -/
  | replaced (uses : Nat)
deriving DecidableEq, Repr

namespace Program

/-! ## Functions and blocks -/

/-- Appends a function without blocks. -/
def addFunction (program : Program) (name : String) (result : Ty) (parameters : List Ty) :
    FunctionId × Program :=
  let id := program.functions.length
  (id, { program with functions := program.functions ++ [{ id, name, result, parameters }] })

/-- The function of this name, declared first if there is none. -/
def getOrDeclare (program : Program) (name : String) (result : Ty) (parameters : List Ty) :
    FunctionId × Program :=
  match program.functionNamed? name with
  | some id => (id, program)
  | none => program.addFunction name result parameters

/-- A declaration of which no parameters are known. -/
def declare (program : Program) (name : String) (result : Ty) : FunctionId × Program :=
  program.getOrDeclare name result []

/-- Changes one function; nothing happens if it does not exist. -/
def modifyFunction (program : Program) (function : FunctionId) (change : Function → Function) :
    Program :=
  { program with functions := program.functions.modify function change }

/-- Changes the handles that a block lists. -/
def modifyHandles (program : Program) (function : FunctionId) (block : BlockId)
    (change : List Handle → List Handle) : Program :=
  program.modifyFunction function (·.modifyBlock block fun block =>
    { block with handles := change block.handles })

/-- Appends an empty block to a function. -/
def addBlock (function : FunctionId) (label : String) : Edit BlockId := do
  let found ← Edit.query (·.function function)
  let id := found.blocks.length
  modify (·.modifyFunction function fun old => { old with blocks := old.blocks ++ [{ id, label }] })
  return id

/-! ## Storage -/

/-- Stores an instruction in the slot that was emptied last, or in a new one. -/
def store (program : Program) (placed : Placed) : Handle × Program :=
  match program.free with
  | slot :: free =>
      let generation := (program.slots[slot]?.map Slot.generation).getD 0
      (⟨slot, generation⟩,
        { program with slots := program.slots.modify slot ({ · with entry := some placed }), free })
  | [] =>
      (⟨program.slots.length, 0⟩, { program with slots := program.slots ++ [{ entry := placed }] })

/-- Empties the slot of a handle.  An empty slot is left alone. -/
def release (program : Program) (handle : Handle) : Option Instruction × Program :=
  match program.slots[handle.slot]?.bind Slot.entry with
  | some placed =>
      (some placed.instruction,
        { program with
          slots := program.slots.modify handle.slot Slot.emptied
          free := handle.slot :: program.free })
  | none => (none, program)

/-- Overwrites the instruction that a live handle names. -/
def modifyInstruction (program : Program) (handle : Handle) (change : Instruction → Instruction) :
    Program :=
  if program.isLive handle then
    { program with
      slots := program.slots.modify handle.slot fun slot =>
        { slot with entry := slot.entry.map fun placed =>
            { placed with instruction := change placed.instruction } } }
  else program

/-- Changes the instruction of a handle, which must be live. -/
def changeInstruction (handle : Handle) (change : Instruction → Instruction) : Edit Unit := do
  let _ ← Edit.query (·.instruction handle)
  modify (·.modifyInstruction handle change)

/-- Overwrites the operation of a live instruction and leaves its name, attributes and location. -/
def setOperation (handle : Handle) (operation : Operation) : Edit Unit :=
  changeInstruction handle (·.withOperation operation)

/-! ## Insertion -/

/-- Appends an instruction to a block. -/
def push (function : FunctionId) (block : BlockId) (instruction : Instruction) : Edit Handle := do
  let found ← Edit.query (·.function function)
  if found.blocks[block]?.isNone then
    throw (.unknownBlock function block)
  let handle ← modifyGet (·.store { instruction, function, block })
  modify (·.modifyHandles function block (· ++ [handle]))
  return handle

/-- Inserts an instruction directly before another, in the block of that other. -/
def insertBefore (anchor : Handle) (instruction : Instruction) : Edit Handle := do
  let (function, block) ← Edit.query (·.parent anchor)
  let handle ← modifyGet (·.store { instruction, function, block })
  let found ← Edit.query (·.function function)
  match found.blocks[block]? with
  | none => throw (.unknownBlock function block)
  | some listed =>
      match listed.position? anchor with
      | some position =>
          modify (·.modifyHandles function block (·.insertIdx position handle))
          return handle
      | none =>
          modify fun program => (program.release handle).2
          throw (.unlistedInBlock anchor block)

/-- Walks are counted in signed 64-bit steps; a longer walk is cut to the longest. -/
def longestWalk : Nat := Nat.pow 2 63 - 1

/-- Inserts an instruction directly before the one some steps after `base`, and says whether the
function ended before the walk did. -/
def insertRelative (base : Handle) (instruction : Instruction) (steps : Nat) :
    Edit (Handle × Bool) := do
  let step ← Edit.query (·.step base (min steps longestWalk : Nat))
  let handle ← insertBefore step.target instruction
  return (handle, step.clamped)

/-! ## Uses -/

/-- Puts `value` in the place of every use of `handle` and counts the operands that changed. -/
def replaceAllUses (handle : Handle) (value : Operand) : Edit Nat := do
  let (function, _) ← Edit.query (·.parent handle)
  let handles ← Edit.query (·.handlesOf function)
  handles.foldlM (fun count reader => do
    let instruction ← Edit.query (·.instruction reader)
    setOperation reader (instruction.operation.replaceUses handle value)
    return count + instruction.operation.useCount handle) 0

/-! ## Removal and replacement -/

/-- Erases an instruction that nothing reads any more. -/
def erase (handle : Handle) : Edit Instruction := do
  let uses ← Edit.query (·.useCount handle)
  if uses > 0 then
    throw (.hasUses handle uses)
  let (function, block) ← Edit.query (·.parent handle)
  modify (·.modifyHandles function block (·.filter (· != handle)))
  match ← modifyGet (·.release handle) with
  | some instruction => return instruction
  | none => throw (.staleHandle handle)

/-- Erases an instruction; what still reads its result reads a zero constant from then on. -/
def eraseOrZero (handle : Handle) (width : Nat) (signed : Bool) : Edit Removal := do
  let uses ← Edit.query (·.useCount handle)
  if uses = 0 then
    let _ ← erase handle
    return .erased
  let uses ← replaceAllUses handle (.constant (Constant.zero width signed))
  let _ ← erase handle
  return .replaced uses

/-- Puts a new instruction in the place of an old one, which is erased.  What read the old result
reads the new one. -/
def replaceWith (old : Handle) (new : Instruction) : Edit Handle := do
  let handle ← insertBefore old new
  let _ ← replaceAllUses old (.result handle)
  let _ ← erase old
  return handle

end Program

end ConcurrencyFaults
