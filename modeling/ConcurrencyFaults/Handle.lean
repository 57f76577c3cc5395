/-!
# Instruction handles

A handle names an instruction by the slot that stores it and by the generation the slot had when
the instruction was put there.  Emptying a slot advances its generation, so a handle that outlived
its instruction no longer matches.
-/

namespace ConcurrencyFaults

/-- The name of an instruction: a storage slot and a generation of that slot. -/
structure Handle where
  slot : Nat
  generation : Nat
deriving DecidableEq, Repr, Inhabited

/-- The generation is written only when it is not the first. -/
def Handle.text (handle : Handle) : String :=
  if handle.generation = 0 then s!"%{handle.slot}"
  else s!"%{handle.slot}.{handle.generation}"

/-- A function is named by its place in the program. -/
abbrev FunctionId := Nat

/-- A block is named by its place in its function. -/
abbrev BlockId := Nat

/-- The written form of a function's name. -/
def functionText (function : FunctionId) : String := s!"@f{function}"

/-- The written form of a block's name. -/
def blockText (block : BlockId) : String := s!"bb{block}"

end ConcurrencyFaults
