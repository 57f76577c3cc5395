import ConcurrencyFaults.Instruction

/-!
# Rewriting operands

`Operation.mapOperands` changes exactly the operands that `Operation.operands` lists, in their
places, and nothing else.  What is left of an operation when its operands are disregarded is its
`shape`; whether it ends a block, where control goes from it and whom it calls can be read off the
shape alone.

Every edit of operands in this library is a `mapOperands`, so the lemmas of this file are the only
ones that go through all kinds of operations.
-/

namespace ConcurrencyFaults

theorem Callee.operands_mapOperands (change : Operand → Operand) (callee : Callee) :
    (callee.mapOperands change).operands = callee.operands.map change := by
  cases callee <;> rfl

namespace Operation

variable (change : Operand → Operand) (operation : Operation)

@[simp] theorem operands_mapOperands :
    (operation.mapOperands change).operands = operation.operands.map change := by
  cases operation with
  | call callee | invoke callee =>
      simp [mapOperands, operands, Callee.operands_mapOperands]
  | ret value => cases value <;> rfl
  | _ => rfl

theorem mapOperands_mapOperands (first second : Operand → Operand) :
    (operation.mapOperands first).mapOperands second =
      operation.mapOperands fun operand => second (first operand) := by
  cases operation with
  | call callee | invoke callee =>
      cases callee <;> simp [mapOperands, Callee.mapOperands, Function.comp_def]
  | ret value => cases value <;> rfl
  | other opcode operands type => simp [mapOperands, Function.comp_def]
  | _ => rfl

/-- A change that leaves every operand as it is leaves the operation as it is. -/
theorem mapOperands_eq_self {change : Operand → Operand} {operation : Operation}
    (hfixed : ∀ operand ∈ operation.operands, change operand = operand) :
    operation.mapOperands change = operation := by
  have hlist : ∀ {values : List Operand}, (∀ value ∈ values, change value = value) →
      values.map change = values := fun hvalues => by
    simpa using List.map_congr_left (g := id) hvalues
  cases operation with
  | call callee arguments | invoke callee arguments =>
      cases callee <;>
        simp_all [mapOperands, operands, Callee.mapOperands, Callee.operands, or_imp, forall_and]
  | ret value => cases value <;> simp_all [mapOperands, operands]
  | other opcode operands type => simp_all [mapOperands, Operation.operands]
  | _ => simp_all [mapOperands, operands]

/-! ## Shape

Two operations have the same shape if they differ in their operands alone, and not in how many there
are.  A property that rewriting keeps is a property of the shape. -/

/-- The operation with every operand blanked out. -/
def shape : Operation := operation.mapOperands fun _ => .undefined

@[simp] theorem shape_mapOperands : (operation.mapOperands change).shape = operation.shape :=
  mapOperands_mapOperands operation change _

@[simp] theorem isTerminator_mapOperands :
    (operation.mapOperands change).isTerminator = operation.isTerminator := by
  cases operation <;> rfl

@[simp] theorem successors_mapOperands :
    (operation.mapOperands change).successors = operation.successors := by
  cases operation <;> rfl

@[simp] theorem callForm?_mapOperands :
    (operation.mapOperands change).callForm? = operation.callForm? := by
  cases operation <;> rfl

@[simp] theorem directCallee?_mapOperands :
    (operation.mapOperands change).directCallee? = operation.directCallee? := by
  cases operation with
  | call callee | invoke callee => cases callee <;> rfl
  | _ => rfl

variable {operation}

theorem directCallee?_eq_of_shape_eq {other : Operation} (hshape : operation.shape = other.shape) :
    operation.directCallee? = other.directCallee? :=
  calc operation.directCallee?
      = operation.shape.directCallee? := (directCallee?_mapOperands _ operation).symm
    _ = other.shape.directCallee? := congrArg directCallee? hshape
    _ = other.directCallee? := directCallee?_mapOperands _ other

/-! ## Where control goes -/

/-- The blocks that control may move to, if the operation ends its block. -/
def exits? (operation : Operation) : Option (List BlockId) :=
  if operation.isTerminator then some operation.successors else none

@[simp] theorem exits?_mapOperands : (operation.mapOperands change).exits? = operation.exits? := by
  simp [exits?]

theorem exits?_eq_of_shape_eq {other : Operation} (hshape : operation.shape = other.shape) :
    operation.exits? = other.exits? :=
  calc operation.exits?
      = operation.shape.exits? := (exits?_mapOperands _).symm
    _ = other.shape.exits? := congrArg exits? hshape
    _ = other.exits? := exits?_mapOperands _

@[simp] theorem exits?_withArguments (arguments : List Operand) :
    (operation.withArguments arguments).exits? = operation.exits? := by
  cases operation <;> rfl

/-- Replacing the arguments of a call by as many others keeps its shape. -/
theorem shape_withArguments {arguments : List Operand}
    (hcall : operation.arguments? = some arguments)
    {replacement : List Operand} (hlength : replacement.length = arguments.length) :
    (operation.withArguments replacement).shape = operation.shape := by
  cases operation with
  | call callee | invoke callee =>
      simp only [arguments?, Option.some.injEq] at hcall
      subst hcall
      simp [withArguments, shape, mapOperands, List.map_const', hlength]
  | _ => cases hcall

/-! ## Uses -/

theorem replaceUses_of_useCount_eq_zero {handle : Handle} (hunused : operation.useCount handle = 0)
    (value : Operand) : operation.replaceUses handle value = operation := by
  refine mapOperands_eq_self fun operand hoperand => ?_
  have huses := List.countP_eq_zero.mp hunused operand hoperand
  simp [huses]

/-- Once its uses are replaced by something else, an operation no longer reads a result. -/
theorem useCount_replaceUses {handle : Handle} {value : Operand}
    (hvalue : value.uses handle = false) :
    (operation.replaceUses handle value).useCount handle = 0 := by
  unfold useCount replaceUses
  rw [operands_mapOperands, List.countP_map, List.countP_eq_zero]
  intro operand _
  by_cases huses : operand.uses handle <;> simp [huses, hvalue]

end Operation

end ConcurrencyFaults
