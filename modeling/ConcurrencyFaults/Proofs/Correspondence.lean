import ConcurrencyFaults.Proofs.Arena.Layout

/-!
# Instructions that differ in their operands

Two operations correspond if they are built alike, agree in everything that is not an operand, and
have related operands in each place.  The relation is told shape by shape, without `operands` and
`mapOperands`, and both are compared with it: rewriting operands leads to a corresponding operation
(`Operation.corresponds_mapOperands`), and the operands that are counted are the ones that are
related (`Operation.Corresponds.operands`).

Being told shape by shape, the relation says what rewriting is to do without relying on how
rewriting is defined.  An operand that is forgotten by the one or the other would show here.
-/

namespace ConcurrencyFaults

/-- The same function, or pointers that are related. -/
inductive Callee.Corresponds (related : Operand → Operand → Prop) : Callee → Callee → Prop
  | direct (function : FunctionId) :
      Callee.Corresponds related (.direct function) (.direct function)
  | indirect {pointer pointer' : Operand} (hpointer : related pointer pointer') :
      Callee.Corresponds related (.indirect pointer) (.indirect pointer')

/-- The same operation, but for related operands. -/
inductive Operation.Corresponds (related : Operand → Operand → Prop) : Operation → Operation → Prop
  | call {callee callee' : Callee} {arguments arguments' : List Operand} (result : Ty)
      (hcallee : callee.Corresponds related callee')
      (harguments : List.Forall₂ related arguments arguments') :
      Corresponds related (.call callee arguments result) (.call callee' arguments' result)
  | invoke {callee callee' : Callee} {arguments arguments' : List Operand} (result : Ty)
      (normal unwind : BlockId) (hcallee : callee.Corresponds related callee')
      (harguments : List.Forall₂ related arguments arguments') :
      Corresponds related (.invoke callee arguments result normal unwind)
        (.invoke callee' arguments' result normal unwind)
  | branch (target : BlockId) : Corresponds related (.branch target) (.branch target)
  | branchIf {condition condition' : Operand} (whenTrue whenFalse : BlockId)
      (hcondition : related condition condition') :
      Corresponds related (.branchIf condition whenTrue whenFalse)
        (.branchIf condition' whenTrue whenFalse)
  | ret {value value' : Option Operand} (hvalue : Option.Rel related value value') :
      Corresponds related (.ret value) (.ret value')
  | unreachable : Corresponds related .unreachable .unreachable
  | fence (order : MemoryOrder) (scope : SyncScope) :
      Corresponds related (.fence order scope) (.fence order scope)
  | load {pointer pointer' : Operand} (type : Ty) (isVolatile : Bool) (order : MemoryOrder)
      (scope : SyncScope) (hpointer : related pointer pointer') :
      Corresponds related (.load pointer type isVolatile order scope)
        (.load pointer' type isVolatile order scope)
  | store {pointer pointer' value value' : Operand} (isVolatile : Bool) (order : MemoryOrder)
      (scope : SyncScope) (hpointer : related pointer pointer') (hvalue : related value value') :
      Corresponds related (.store pointer value isVolatile order scope)
        (.store pointer' value' isVolatile order scope)
  | compareExchange {pointer pointer' expected expected' new new' : Operand} (type : Ty)
      (success failure : MemoryOrder) (scope : SyncScope) (isVolatile : Bool)
      (hpointer : related pointer pointer') (hexpected : related expected expected')
      (hnew : related new new') :
      Corresponds related
        (.compareExchange pointer expected new type success failure scope isVolatile)
        (.compareExchange pointer' expected' new' type success failure scope isVolatile)
  | update {pointer pointer' value value' : Operand} (operator : UpdateOperator) (type : Ty)
      (order : MemoryOrder) (scope : SyncScope) (isVolatile : Bool)
      (hpointer : related pointer pointer') (hvalue : related value value') :
      Corresponds related (.update operator pointer value type order scope isVolatile)
        (.update operator pointer' value' type order scope isVolatile)
  | fieldAddress {base base' : Operand} (field : Nat) (hbase : related base base') :
      Corresponds related (.fieldAddress base field) (.fieldAddress base' field)
  | binary {left left' right right' : Operand} (operator : BinaryOperator) (type : Ty)
      (hleft : related left left') (hright : related right right') :
      Corresponds related (.binary operator left right type) (.binary operator left' right' type)
  | other {operands operands' : List Operand} (opcode : String) (type : Ty)
      (hoperands : List.Forall₂ related operands operands') :
      Corresponds related (.other opcode operands type) (.other opcode operands' type)

/-- The same instruction in the same place, but for related operands. -/
structure Placed.Corresponds (related : Operand → Operand → Prop) (entry found : Placed) :
    Prop where
  function_eq : found.function = entry.function
  block_eq : found.block = entry.block
  name_eq : found.instruction.name = entry.instruction.name
  attributes_eq : found.instruction.attributes = entry.instruction.attributes
  location_eq : found.instruction.location = entry.instruction.location
  operation : entry.instruction.operation.Corresponds related found.instruction.operation

variable {related : Operand → Operand → Prop} {change : Operand → Operand}

private theorem forall₂_map_right {operands : List Operand}
    (hchange : ∀ operand ∈ operands, related operand (change operand)) :
    List.Forall₂ related operands (operands.map change) :=
  List.forall₂_map_right_iff.mpr (List.forall₂_same.mpr hchange)

/-! ## Rewriting leads to what corresponds -/

namespace Callee

theorem corresponds_mapOperands {callee : Callee}
    (hchange : ∀ operand ∈ callee.operands, related operand (change operand)) :
    callee.Corresponds related (callee.mapOperands change) := by
  cases callee with
  | direct function => exact .direct function
  | indirect pointer => exact .indirect (hchange pointer (List.mem_singleton_self pointer))

theorem Corresponds.operands {callee callee' : Callee}
    (hcallee : callee.Corresponds related callee') :
    List.Forall₂ related callee.operands callee'.operands := by
  cases hcallee with
  | direct function => exact .nil
  | indirect hpointer => exact .cons hpointer .nil

end Callee

namespace Operation

variable {operation operation' : Operation}

/-- Changing operands leaves everything else. -/
theorem corresponds_mapOperands
    (hchange : ∀ operand ∈ operation.operands, related operand (change operand)) :
    operation.Corresponds related (operation.mapOperands change) := by
  -- every place of every shape is one of the operands that the hypothesis is about
  cases operation with
  | call callee arguments result =>
      rw [operands, List.forall_mem_append] at hchange
      exact .call result (Callee.corresponds_mapOperands hchange.2) (forall₂_map_right hchange.1)
  | invoke callee arguments result normal unwind =>
      rw [operands, List.forall_mem_append] at hchange
      exact .invoke result normal unwind (Callee.corresponds_mapOperands hchange.2)
        (forall₂_map_right hchange.1)
  | branch target => exact .branch target
  | branchIf condition whenTrue whenFalse =>
      exact .branchIf whenTrue whenFalse (hchange condition (by simp [operands]))
  | ret value =>
      cases value with
      | none => exact .ret .none
      | some value => exact .ret (.some (hchange value (by simp [operands])))
  | unreachable => exact .unreachable
  | fence order scope => exact .fence order scope
  | load pointer type isVolatile order scope =>
      exact .load type isVolatile order scope (hchange pointer (by simp [operands]))
  | store pointer value isVolatile order scope =>
      exact .store isVolatile order scope (hchange pointer (by simp [operands]))
        (hchange value (by simp [operands]))
  | compareExchange pointer expected new type success failure scope isVolatile =>
      exact .compareExchange type success failure scope isVolatile
        (hchange pointer (by simp [operands])) (hchange expected (by simp [operands]))
        (hchange new (by simp [operands]))
  | update operator pointer value type order scope isVolatile =>
      exact .update operator type order scope isVolatile (hchange pointer (by simp [operands]))
        (hchange value (by simp [operands]))
  | fieldAddress base field => exact .fieldAddress field (hchange base (by simp [operands]))
  | binary operator left right type =>
      exact .binary operator type (hchange left (by simp [operands]))
        (hchange right (by simp [operands]))
  | other opcode operands type => exact .other opcode type (forall₂_map_right hchange)

theorem corresponds_self (hsame : ∀ operand ∈ operation.operands, related operand operand) :
    operation.Corresponds related operation := by
  have hmapped := @corresponds_mapOperands related id operation hsame
  rwa [@mapOperands_eq_self id operation fun _ _ => rfl] at hmapped

/-- The operands of corresponding operations are related in order. -/
theorem Corresponds.operands (hoperation : operation.Corresponds related operation') :
    List.Forall₂ related operation.operands operation'.operands := by
  cases hoperation with
  | call result hcallee harguments | invoke result normal unwind hcallee harguments =>
      exact List.rel_append harguments hcallee.operands
  | branch | unreachable | fence => exact .nil
  | ret hvalue =>
      cases hvalue with
      | none => exact .nil
      | some hvalue => exact .cons hvalue .nil
  | branchIf whenTrue whenFalse hfirst | load type isVolatile order scope hfirst
  | fieldAddress field hfirst => exact .cons hfirst .nil
  | store isVolatile order scope hfirst hsecond
  | update operator type order scope isVolatile hfirst hsecond
  | binary operator type hfirst hsecond => exact .cons hfirst (.cons hsecond .nil)
  | compareExchange type success failure scope isVolatile hfirst hsecond hthird =>
      exact .cons hfirst (.cons hsecond (.cons hthird .nil))
  | other opcode type hoperands => exact hoperands

end Operation

namespace Placed

variable {entry : Placed}

/-- What the rewriting of a function leaves of an instruction, be it of that function or not. -/
theorem corresponds_rewrite {function : FunctionId}
    (hhere : entry.function = function → ∀ operand ∈ entry.instruction.operation.operands,
      related operand (change operand))
    (helsewhere : entry.function ≠ function → ∀ operand ∈ entry.instruction.operation.operands,
      related operand operand) : entry.Corresponds related (entry.rewrite function change) := by
  unfold rewrite
  split
  · rename_i hsame
    exact ⟨rfl, rfl, rfl, rfl, rfl, Operation.corresponds_mapOperands (hhere hsame)⟩
  · rename_i hother
    exact ⟨rfl, rfl, rfl, rfl, rfl, Operation.corresponds_self (helsewhere hother)⟩

end Placed

end ConcurrencyFaults
