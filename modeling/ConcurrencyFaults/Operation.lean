import ConcurrencyFaults.Memory
import ConcurrencyFaults.Operand

/-!
# Operations

An operation says what an instruction does and which operands it reads.  Calls come in two forms: a
plain call falls through to the next instruction, while an invoke ends its block and names one block
for the normal return and one for unwinding.

`Operation.operands` lists the operands in a fixed order, and `Operation.mapOperands` changes the
same operands in place.
-/

namespace ConcurrencyFaults

/-- The target of a call. -/
inductive Callee where
  /-- A function of the program. -/
  | direct (function : FunctionId)
  /-- A function pointer, never resolved. -/
  | indirect (pointer : Operand)
deriving DecidableEq, Repr, Inhabited

namespace Callee

def function? : Callee → Option FunctionId
  | .direct function => some function
  | .indirect _ => none

/-- The operands that naming the target reads. -/
def operands : Callee → List Operand
  | .direct _ => []
  | .indirect pointer => [pointer]

def mapOperands (change : Operand → Operand) : Callee → Callee
  | .direct function => .direct function
  | .indirect pointer => .indirect (change pointer)

def text : Callee → String
  | .direct function => functionText function
  | .indirect pointer => pointer.text

end Callee

/-- The two forms of a call. -/
inductive CallForm where
  /-- Falls through. -/
  | call
  /-- Ends its block, with a normal and an unwind continuation. -/
  | invoke
deriving DecidableEq, Repr, Inhabited

namespace CallForm

def all : List CallForm := [.call, .invoke]

def text : CallForm → String
  | .call => "call"
  | .invoke => "invoke"

instance : Vocabulary CallForm := ⟨all, text⟩

end CallForm

/-- Binary arithmetic. -/
inductive BinaryOperator where
  | add
  | sub
  | mul
  | and
  | or
  | xor
deriving DecidableEq, Repr, Inhabited

namespace BinaryOperator

def all : List BinaryOperator := [.add, .sub, .mul, .and, .or, .xor]

def text : BinaryOperator → String
  | .add => "add"
  | .sub => "sub"
  | .mul => "mul"
  | .and => "and"
  | .or => "or"
  | .xor => "xor"

instance : Vocabulary BinaryOperator := ⟨all, text⟩

end BinaryOperator

/-- What an atomic read-modify-write does with the old value. -/
inductive UpdateOperator where
  | exchange
  | add
  | sub
  | and
  | or
  | xor
deriving DecidableEq, Repr, Inhabited

namespace UpdateOperator

def all : List UpdateOperator := [.exchange, .add, .sub, .and, .or, .xor]

def text : UpdateOperator → String
  | .exchange => "xchg"
  | .add => "add"
  | .sub => "sub"
  | .and => "and"
  | .or => "or"
  | .xor => "xor"

instance : Vocabulary UpdateOperator := ⟨all, text⟩

end UpdateOperator

/-- What an instruction does. -/
inductive Operation where
  | call (callee : Callee) (arguments : List Operand) (result : Ty)
  | invoke (callee : Callee) (arguments : List Operand) (result : Ty) (normal unwind : BlockId)
  | branch (target : BlockId)
  | branchIf (condition : Operand) (whenTrue whenFalse : BlockId)
  | ret (value : Option Operand)
  | unreachable
  | fence (order : MemoryOrder) (scope : SyncScope)
  | load (pointer : Operand) (type : Ty) (isVolatile : Bool) (order : MemoryOrder)
      (scope : SyncScope)
  | store (pointer value : Operand) (isVolatile : Bool) (order : MemoryOrder) (scope : SyncScope)
  | compareExchange (pointer expected new : Operand) (type : Ty) (success failure : MemoryOrder)
      (scope : SyncScope) (isVolatile : Bool)
  | update (operator : UpdateOperator) (pointer value : Operand) (type : Ty) (order : MemoryOrder)
      (scope : SyncScope) (isVolatile : Bool)
  | fieldAddress (base : Operand) (field : Nat)
  | binary (operator : BinaryOperator) (left right : Operand) (type : Ty)
  /-- Anything else; only its operands matter. -/
  | other (opcode : String) (operands : List Operand) (type : Ty)
deriving DecidableEq, Repr, Inhabited

namespace Operation

/-! ## Shape -/

/-- The type of the value that the operation produces. -/
def resultType : Operation → Ty
  | .call _ _ result | .invoke _ _ result _ _ => result
  | .load _ type _ _ _ => type
  | .compareExchange _ _ _ type _ _ _ _ => type
  | .update _ _ _ type _ _ _ => type
  | .binary _ _ _ type => type
  | .other _ _ type => type
  | .fieldAddress _ _ => .pointer
  | .branch _ | .branchIf _ _ _ | .ret _ | .unreachable | .fence _ _ | .store _ _ _ _ _ => .void

/-- Whether the operation ends its block. -/
def isTerminator : Operation → Bool
  | .invoke _ _ _ _ _ | .branch _ | .branchIf _ _ _ | .ret _ | .unreachable => true
  | _ => false

def callForm? : Operation → Option CallForm
  | .call _ _ _ => some .call
  | .invoke _ _ _ _ _ => some .invoke
  | _ => none

def callee? : Operation → Option Callee
  | .call callee _ _ | .invoke callee _ _ _ _ => some callee
  | _ => none

/-- The function that a direct call or invoke names. -/
def directCallee? (operation : Operation) : Option FunctionId :=
  operation.callee?.bind Callee.function?

def arguments? : Operation → Option (List Operand)
  | .call _ arguments _ | .invoke _ arguments _ _ _ => some arguments
  | _ => none

/-- The same call with other arguments; anything but a call stays as it is. -/
def withArguments (arguments : List Operand) : Operation → Operation
  | .call callee _ result => .call callee arguments result
  | .invoke callee _ result normal unwind => .invoke callee arguments result normal unwind
  | operation => operation

/-- The blocks that control may move to. -/
def successors : Operation → List BlockId
  | .invoke _ _ _ normal unwind => [normal, unwind]
  | .branch target => [target]
  | .branchIf _ whenTrue whenFalse => [whenTrue, whenFalse]
  | _ => []

/-- The mnemonic. -/
def opcode : Operation → String
  | .call _ _ _ => "call"
  | .invoke _ _ _ _ _ => "invoke"
  | .branch _ | .branchIf _ _ _ => "br"
  | .ret _ => "ret"
  | .unreachable => "unreachable"
  | .fence _ _ => "fence"
  | .load _ _ _ _ _ => "load"
  | .store _ _ _ _ _ => "store"
  | .compareExchange _ _ _ _ _ _ _ _ => "cmpxchg"
  | .update _ _ _ _ _ _ _ => "atomicrmw"
  | .fieldAddress _ _ => "getelementptr"
  | .binary operator _ _ _ => operator.text
  | .other opcode _ _ => opcode

/-! ## Operands -/

/-- Every operand that is read, in order.  The pointer of an indirect call follows its arguments. -/
def operands : Operation → List Operand
  | .call callee arguments _ | .invoke callee arguments _ _ _ => arguments ++ callee.operands
  | .branchIf condition _ _ => [condition]
  | .ret value => value.toList
  | .load pointer _ _ _ _ => [pointer]
  | .store pointer value _ _ _ => [pointer, value]
  | .update _ pointer value _ _ _ _ => [pointer, value]
  | .compareExchange pointer expected new _ _ _ _ _ => [pointer, expected, new]
  | .fieldAddress base _ => [base]
  | .binary _ left right _ => [left, right]
  | .other _ operands _ => operands
  | .branch _ | .unreachable | .fence _ _ => []

/-- Changes each operand in its place. -/
def mapOperands (change : Operand → Operand) : Operation → Operation
  | .call callee arguments result =>
      .call (callee.mapOperands change) (arguments.map change) result
  | .invoke callee arguments result normal unwind =>
      .invoke (callee.mapOperands change) (arguments.map change) result normal unwind
  | .branchIf condition whenTrue whenFalse => .branchIf (change condition) whenTrue whenFalse
  | .ret value => .ret (value.map change)
  | .load pointer type isVolatile order scope =>
      .load (change pointer) type isVolatile order scope
  | .store pointer value isVolatile order scope =>
      .store (change pointer) (change value) isVolatile order scope
  | .update operator pointer value type order scope isVolatile =>
      .update operator (change pointer) (change value) type order scope isVolatile
  | .compareExchange pointer expected new type success failure scope isVolatile =>
      .compareExchange (change pointer) (change expected) (change new) type success failure scope
        isVolatile
  | .fieldAddress base field => .fieldAddress (change base) field
  | .binary operator left right type => .binary operator (change left) (change right) type
  | .other opcode operands type => .other opcode (operands.map change) type
  | .branch target => .branch target
  | .unreachable => .unreachable
  | .fence order scope => .fence order scope

/-- How many operands read the result of `handle`. -/
def useCount (operation : Operation) (handle : Handle) : Nat :=
  operation.operands.countP (·.uses handle)

/-- Puts `value` in the place of every use of `handle`. -/
def replaceUses (handle : Handle) (value : Operand) (operation : Operation) : Operation :=
  operation.mapOperands fun operand => if operand.uses handle then value else operand

/-! ## Written form -/

/-- The operands, each after a blank. -/
def operandText (operation : Operation) : String :=
  String.join (operation.operands.map fun operand => " " ++ operand.text)

/-- The target, the result type and the arguments of a call. -/
def callText (callee : Callee) (arguments : List Operand) (result : Ty) : String :=
  " " ++ result.text ++ " " ++ callee.text ++ "(" ++
    ", ".intercalate (arguments.map Operand.text) ++ ")"

/-- The scope and order of an access, which plain accesses do not show. -/
def accessText (order : MemoryOrder) (scope : SyncScope) : String :=
  if order.isAtomic then " " ++ scope.text ++ " " ++ order.text else ""

/-- What follows the mnemonic. -/
def detailText : Operation → String
  | .call callee arguments result => callText callee arguments result
  | .invoke callee arguments result normal unwind =>
      callText callee arguments result ++ " to " ++ blockText normal ++ " unwind " ++
        blockText unwind
  | .branch target => " " ++ blockText target
  | .branchIf condition whenTrue whenFalse =>
      " " ++ condition.text ++ ", " ++ blockText whenTrue ++ ", " ++ blockText whenFalse
  | .fence order scope => " " ++ scope.text ++ " " ++ order.text
  | operation@(.load _ _ _ order scope) => operation.operandText ++ accessText order scope
  | operation@(.store _ _ _ order scope) => operation.operandText ++ accessText order scope
  | operation@(.update _ _ _ _ order scope _) => operation.operandText ++ accessText order scope
  | operation@(.compareExchange _ _ _ _ success failure scope _) =>
      operation.operandText ++ " " ++ scope.text ++ " " ++ success.text ++ " " ++ failure.text
  | operation => operation.operandText

/-- The mnemonic and all that follows it. -/
def text (operation : Operation) : String := operation.opcode ++ operation.detailText

end Operation

end ConcurrencyFaults
