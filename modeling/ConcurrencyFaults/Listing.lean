import ConcurrencyFaults.Program.Basic

/-!
# Listings

A listing shows the bodies of a program: for each function with blocks its name, and for each block
its name and instructions.
-/

namespace ConcurrencyFaults

/-- A block as it is listed: its heading, and a line for each instruction. -/
structure BlockListing where
  heading : String
  lines : List String
deriving DecidableEq, Repr, Inhabited

/-- A function as it is listed: its heading, and its blocks. -/
structure FunctionListing where
  heading : String
  blocks : List BlockListing
deriving DecidableEq, Repr, Inhabited

namespace Program

/-- The line of an instruction: its handle, and its written form while it is live. -/
def line (program : Program) (handle : Handle) : String :=
  handle.text ++ " " ++ ((program.instruction? handle).map Instruction.text).getD ""

def listBlock (program : Program) (block : Block) : BlockListing where
  heading := blockText block.id ++ " " ++ block.label
  lines := block.handles.map program.line

def listFunction (program : Program) (function : Function) : FunctionListing where
  heading := functionText function.id ++ " " ++ function.name
  blocks := function.blocks.map program.listBlock

/-- Every function that is not a declaration. -/
def listing (program : Program) : List FunctionListing :=
  (program.functions.filter fun function => !function.isDeclaration).map program.listFunction

end Program

end ConcurrencyFaults
