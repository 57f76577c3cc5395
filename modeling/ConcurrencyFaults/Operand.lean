import ConcurrencyFaults.Handle

/-!
# Types, constants and operands

An operand is plain data: the result of an instruction, a parameter, a global symbol, a constant or
an undefined value.  When an instruction is erased while its result is still read, the readers
receive a constant of a chosen width instead, which keeps them well typed.
-/

namespace ConcurrencyFaults

/-- The type of the value that an instruction produces. -/
inductive Ty where
  /-- No value. -/
  | void
  /-- An integer of some width in bits. -/
  | int (bits : Nat)
  /-- An opaque pointer. -/
  | pointer
deriving DecidableEq, Repr, Inhabited

namespace Ty

/-- The 32-bit integers that the pthread primitives return. -/
def status : Ty := .int 32

def isVoid (type : Ty) : Bool := type == .void

/-- The width of an integer type. -/
def bits? : Ty → Option Nat
  | .int bits => some bits
  | _ => none

def text : Ty → String
  | .void => "void"
  | .int bits => s!"i{bits}"
  | .pointer => "ptr"

end Ty

/-- A constant that is known before the program runs. -/
inductive Constant where
  | int (width : Nat) (signed : Bool) (value : Int)
  | null
deriving DecidableEq, Repr, Inhabited

namespace Constant

/-- The constant that takes the place of an erased result. -/
def zero (width : Nat) (signed : Bool) : Constant := .int width signed 0

def value? : Constant → Option Int
  | .int _ _ value => some value
  | .null => none

def type : Constant → Ty
  | .int width _ _ => .int width
  | .null => .pointer

def text : Constant → String
  | .int width _ value => s!"i{width} {value}"
  | .null => "null"

end Constant

/-- What an instruction may read. -/
inductive Operand where
  /-- The result of an instruction of the same function. -/
  | result (handle : Handle)
  /-- A parameter, by its place. -/
  | parameter (index : Nat)
  /-- A global symbol. -/
  | global (name : String)
  | constant (value : Constant)
  | undefined
deriving DecidableEq, Repr, Inhabited

namespace Operand

/-- A signed or unsigned integer constant. -/
def int (width : Nat) (signed : Bool) (value : Int) : Operand := .constant (.int width signed value)

/-- The instruction whose result is read, if any. -/
def handle? : Operand → Option Handle
  | .result handle => some handle
  | _ => none

def constant? : Operand → Option Constant
  | .constant value => some value
  | _ => none

/-- Whether the operand reads the result of `handle`. -/
def uses (operand : Operand) (handle : Handle) : Bool := operand == .result handle

def text : Operand → String
  | .result handle => handle.text
  | .parameter index => s!"%arg{index}"
  | .global name => s!"@{name}"
  | .constant value => value.text
  | .undefined => "undef"

end Operand

end ConcurrencyFaults
