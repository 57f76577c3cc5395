import ConcurrencyFaults.Operation

/-!
# Instructions

An instruction is an operation with a result name that only printing shows, the attributes of its
call site and a source location.
-/

namespace ConcurrencyFaults

/-- A line of a source file. -/
structure Location where
  file : String
  line : Nat
deriving DecidableEq, Repr, Inhabited

def Location.text (location : Location) : String := s!"{location.file}:{location.line}"

/-- What is known of a call site.  Every copy of a call keeps them. -/
structure CallAttributes where
  noUnwind : Bool := false
  noReturn : Bool := false
  readOnly : Bool := false
  cold : Bool := false
  noInline : Bool := false
  tail : Bool := false
deriving DecidableEq, Repr, Inhabited

namespace CallAttributes

/-- No attribute is set. -/
def none : CallAttributes := {}

/-- Reads one attribute from each of the six lowest bits; higher bits are ignored. -/
def ofBits (bits : Nat) : CallAttributes where
  noUnwind := bits.testBit 0
  noReturn := bits.testBit 1
  readOnly := bits.testBit 2
  cold := bits.testBit 3
  noInline := bits.testBit 4
  tail := bits.testBit 5

def toBits (attributes : CallAttributes) : Nat :=
  attributes.noUnwind.toNat + 2 * attributes.noReturn.toNat + 4 * attributes.readOnly.toNat +
    8 * attributes.cold.toNat + 16 * attributes.noInline.toNat + 32 * attributes.tail.toNat

end CallAttributes

/-- An operation with its name, attributes and location. -/
structure Instruction where
  operation : Operation
  name : Option String := Option.none
  attributes : CallAttributes := CallAttributes.none
  location : Option Location := Option.none
deriving DecidableEq, Repr, Inhabited

namespace Instruction

/-- An instruction of which nothing but the operation is known. -/
def ofOperation (operation : Operation) : Instruction := { operation }

def withOperation (operation : Operation) (instruction : Instruction) : Instruction :=
  { instruction with operation }

def isTerminator (instruction : Instruction) : Bool := instruction.operation.isTerminator

/-- The name in front, the location behind. -/
def text (instruction : Instruction) : String :=
  (match instruction.name with
    | some name => "%" ++ name ++ " = "
    | none => "") ++
  instruction.operation.text ++
  (match instruction.location with
    | some location => " ; " ++ location.text
    | none => "")

end Instruction

end ConcurrencyFaults
