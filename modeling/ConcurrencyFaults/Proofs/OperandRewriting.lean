import ConcurrencyFaults.Proofs.Arena.Commands
import ConcurrencyFaults.Proofs.Typing

/-!
# Operands are rewritten where they are read

`Operation.operands` and `Operation.mapOperands` are two case analyses of the same operations, and
edits rely on both: uses are counted with the first and replaced with the second.  An operation is
its operands together with what is left without them, its `Skeleton`, and can be assembled from the
two.  So there is one way to say that the case analyses agree: rewriting assembles the old skeleton
with the rewritten operands.

This holds as well when the operands are visited one after another and each visit may have an effect
(`Operation.visitOperands`), which is how uses are replaced and counted in one go
(`Program.replaceUsesInTurn`).

In a program the replaced uses are counted reader by reader, while the program changes under the
count.  The counts agree as long as no reader is visited twice, for a reader that is visited again
has no uses left.  That a listed handle is stale does no harm: counting and replacing both stop
there.

## Strategy

* `assemble_skeleton` inverts taking apart.  With it each law of rewriting is a law of lists: of
  `List.map` for `assemble_map_operands` and of `List.mapM` for `assemble_mapM_operands`.
* A visit that replaces and counts is computed on the list of operands (`run_mapM_replaceUse`) and
  carried over to the operation (`run_visitOperands_replaceUse`).
* In a program, the cases are those of the count: a stale handle, a function that does not exist, a
  first reader that is stale, or live readers throughout (`exists_first_stale`).
-/

namespace ConcurrencyFaults

/-! ## Skeletons

A skeleton has the fields of an operation that are no operands.  An indirect call reads its target,
so its skeleton names none; assembling one takes the last operand as the target. -/

/-- What an operation says besides which operands it reads.  Of the target of a call this is the
function that a direct call names. -/
inductive Skeleton where
  | call (target? : Option FunctionId) (result : Ty)
  | invoke (target? : Option FunctionId) (result : Ty) (normal unwind : BlockId)
  | branch (target : BlockId)
  | branchIf (whenTrue whenFalse : BlockId)
  | ret
  | unreachable
  | fence (order : MemoryOrder) (scope : SyncScope)
  | load (type : Ty) (isVolatile : Bool) (order : MemoryOrder) (scope : SyncScope)
  | store (isVolatile : Bool) (order : MemoryOrder) (scope : SyncScope)
  | compareExchange (type : Ty) (success failure : MemoryOrder) (scope : SyncScope)
      (isVolatile : Bool)
  | update (operator : UpdateOperator) (type : Ty) (order : MemoryOrder) (scope : SyncScope)
      (isVolatile : Bool)
  | fieldAddress (field : Nat)
  | binary (operator : BinaryOperator) (type : Ty)
  | other (opcode : String) (type : Ty)
deriving DecidableEq, Repr

/-- The operation with this skeleton that reads these operands in this order. -/
def Skeleton.assemble : Skeleton → List Operand → Option Operation
  | .call (some target) result, arguments => some (.call (.direct target) arguments result)
  | .call none result, operands => operands.getLast?.map fun pointer =>
      .call (.indirect pointer) operands.dropLast result
  | .invoke (some target) result normal unwind, arguments =>
      some (.invoke (.direct target) arguments result normal unwind)
  | .invoke none result normal unwind, operands => operands.getLast?.map fun pointer =>
      .invoke (.indirect pointer) operands.dropLast result normal unwind
  | .branch target, [] => some (.branch target)
  | .branchIf whenTrue whenFalse, [condition] => some (.branchIf condition whenTrue whenFalse)
  | .ret, [] => some (.ret none)
  | .ret, [value] => some (.ret (some value))
  | .unreachable, [] => some .unreachable
  | .fence order scope, [] => some (.fence order scope)
  | .load type isVolatile order scope, [pointer] => some (.load pointer type isVolatile order scope)
  | .store isVolatile order scope, [pointer, value] =>
      some (.store pointer value isVolatile order scope)
  | .compareExchange type success failure scope isVolatile, [pointer, expected, new] =>
      some (.compareExchange pointer expected new type success failure scope isVolatile)
  | .update operator type order scope isVolatile, [pointer, value] =>
      some (.update operator pointer value type order scope isVolatile)
  | .fieldAddress field, [base] => some (.fieldAddress base field)
  | .binary operator type, [left, right] => some (.binary operator left right type)
  | .other opcode type, operands => some (.other opcode operands type)
  | _, _ => none

namespace Operation

/-- The operation without its operands. -/
def skeleton : Operation → Skeleton
  | .call callee _ result => .call callee.function? result
  | .invoke callee _ result normal unwind => .invoke callee.function? result normal unwind
  | .branch target => .branch target
  | .branchIf _ whenTrue whenFalse => .branchIf whenTrue whenFalse
  | .ret _ => .ret
  | .unreachable => .unreachable
  | .fence order scope => .fence order scope
  | .load _ type isVolatile order scope => .load type isVolatile order scope
  | .store _ _ isVolatile order scope => .store isVolatile order scope
  | .compareExchange _ _ _ type success failure scope isVolatile =>
      .compareExchange type success failure scope isVolatile
  | .update operator _ _ type order scope isVolatile => .update operator type order scope isVolatile
  | .fieldAddress _ field => .fieldAddress field
  | .binary operator _ _ type => .binary operator type
  | .other opcode _ type => .other opcode type

variable {operation other : Operation} (change : Operand → Operand)

theorem assemble_skeleton (operation : Operation) :
    operation.skeleton.assemble operation.operands = some operation := by
  cases operation with
  | call callee | invoke callee =>
      cases callee <;>
        simp [skeleton, Skeleton.assemble, operands, Callee.function?, Callee.operands]
  | ret value => cases value <;> rfl
  | _ => rfl

theorem eq_of_skeleton_eq (hskeleton : operation.skeleton = other.skeleton)
    (hoperands : operation.operands = other.operands) : operation = other := by
  have hassembled := assemble_skeleton operation
  rw [hskeleton, hoperands, assemble_skeleton other] at hassembled
  exact (Option.some.inj hassembled).symm

@[simp] theorem skeleton_mapOperands (operation : Operation) :
    (operation.mapOperands change).skeleton = operation.skeleton := by
  cases operation with
  | call callee | invoke callee => cases callee <;> rfl
  | _ => rfl

/-- The operation that reads the changed operands is the changed operation. -/
theorem assemble_map_operands (operation : Operation) :
    operation.skeleton.assemble (operation.operands.map change) =
      some (operation.mapOperands change) := by
  rw [← operands_mapOperands, ← skeleton_mapOperands change, assemble_skeleton]

@[simp] theorem opcode_mapOperands (operation : Operation) :
    (operation.mapOperands change).opcode = operation.opcode := by
  cases operation <;> rfl

/-- The operation that reads the changed operands and is the same in all else. -/
structure Rewritten (operation rewritten : Operation) : Prop where
  operands_eq : rewritten.operands = operation.operands.map change
  skeleton_eq : rewritten.skeleton = operation.skeleton
  directCallee?_eq : rewritten.directCallee? = operation.directCallee?
  resultType_eq : rewritten.resultType = operation.resultType
  successors_eq : rewritten.successors = operation.successors
  opcode_eq : rewritten.opcode = operation.opcode
  unique : ∀ other : Operation, other.skeleton = operation.skeleton →
    other.operands = operation.operands.map change → other = rewritten

theorem rewritten_mapOperands (operation : Operation) :
    operation.Rewritten change (operation.mapOperands change) where
  operands_eq := operands_mapOperands change operation
  skeleton_eq := skeleton_mapOperands change operation
  directCallee?_eq := directCallee?_mapOperands change operation
  resultType_eq := resultType_mapOperands operation change
  successors_eq := successors_mapOperands change operation
  opcode_eq := opcode_mapOperands change operation
  unique _ hskeleton hoperands :=
    eq_of_skeleton_eq (hskeleton.trans (skeleton_mapOperands change operation).symm)
      (hoperands.trans (operands_mapOperands change operation).symm)

/-! ## Visiting operands

The third case analysis of the operations is the one with an effect.  Its order is the order in
which operands are listed. -/

/-- Visits each operand in its place, in the order in which operands are listed, and puts there what
the visit answers. -/
def visitOperands {Effect : Type → Type} [Monad Effect] (visit : Operand → Effect Operand) :
    Operation → Effect Operation
  | .call (.direct target) arguments result => do
      return .call (.direct target) (← arguments.mapM visit) result
  | .call (.indirect pointer) arguments result => do
      let arguments ← arguments.mapM visit
      return .call (.indirect (← visit pointer)) arguments result
  | .invoke (.direct target) arguments result normal unwind => do
      return .invoke (.direct target) (← arguments.mapM visit) result normal unwind
  | .invoke (.indirect pointer) arguments result normal unwind => do
      let arguments ← arguments.mapM visit
      return .invoke (.indirect (← visit pointer)) arguments result normal unwind
  | .branchIf condition whenTrue whenFalse => do
      return .branchIf (← visit condition) whenTrue whenFalse
  | .ret none => return .ret none
  | .ret (some value) => return .ret (some (← visit value))
  | .load pointer type isVolatile order scope => do
      return .load (← visit pointer) type isVolatile order scope
  | .store pointer value isVolatile order scope => do
      return .store (← visit pointer) (← visit value) isVolatile order scope
  | .update operator pointer value type order scope isVolatile => do
      return .update operator (← visit pointer) (← visit value) type order scope isVolatile
  | .compareExchange pointer expected new type success failure scope isVolatile => do
      return .compareExchange (← visit pointer) (← visit expected) (← visit new) type success
        failure scope isVolatile
  | .fieldAddress base field => return .fieldAddress (← visit base) field
  | .binary operator left right type => do
      return .binary operator (← visit left) (← visit right) type
  | .other opcode operands type => return .other opcode (← operands.mapM visit) type
  | .branch target => return .branch target
  | .unreachable => return .unreachable
  | .fence order scope => return .fence order scope

/-- What a visit of the operands, one after another in their order, makes of an operation is put
together from its skeleton and the answers. -/
theorem assemble_mapM_operands {Effect : Type → Type} [Monad Effect] [LawfulMonad Effect]
    (visit : Operand → Effect Operand) (operation : Operation) :
    operation.skeleton.assemble <$> operation.operands.mapM visit =
      some <$> operation.visitOperands visit := by
  cases operation with
  | call callee | invoke callee =>
      cases callee with
      | direct target =>
          simp only [operands, Callee.operands, List.append_nil, visitOperands, bind_pure_comp,
            Functor.map_map]
          rfl
      | indirect pointer =>
          simp [skeleton, Skeleton.assemble, operands, Callee.function?, Callee.operands,
            visitOperands]
  | ret value => cases value <;> simp [skeleton, Skeleton.assemble, operands, visitOperands]
  | other opcode operands type =>
      simp only [Operation.operands, visitOperands, bind_pure_comp, Functor.map_map]
      rfl
  | _ => simp [skeleton, Skeleton.assemble, operands, visitOperands]

/-- Visits that do nothing but change operands. -/
theorem visitOperands_pure (operation : Operation) :
    operation.visitOperands (fun operand => (pure (change operand) : Id Operand)) =
      pure (operation.mapOperands change) := by
  have hvisit := assemble_mapM_operands (fun operand => (pure (change operand) : Id Operand))
    operation
  rw [List.mapM_pure, map_pure, assemble_map_operands] at hvisit
  exact (Option.some.inj hvisit).symm

/-- Puts `value` in the place of an operand that uses `handle`, and counts it. -/
def replaceUse (handle : Handle) (value operand : Operand) : StateM Nat Operand := do
  if operand.uses handle then
    modify (· + 1)
    return value
  else
    return operand

theorem run_mapM_replaceUse (handle : Handle) (value : Operand) (operands : List Operand)
    (count : Nat) :
    (operands.mapM (replaceUse handle value)).run count =
      (operands.map fun operand => if operand.uses handle then value else operand,
        count + operands.countP (·.uses handle)) := by
  induction operands generalizing count with
  | nil => rfl
  | cons operand rest ih =>
      have hfirst : (replaceUse handle value operand).run count =
          (if operand.uses handle then value else operand,
            count + if operand.uses handle then 1 else 0) := by
        unfold replaceUse
        cases operand.uses handle <;> rfl
      calc ((operand :: rest).mapM (replaceUse handle value)).run count
          = (((replaceUse handle value operand).run count).1 ::
                ((rest.mapM (replaceUse handle value)).run
                  ((replaceUse handle value operand).run count).2).1,
              ((rest.mapM (replaceUse handle value)).run
                ((replaceUse handle value operand).run count).2).2) := by
            rw [List.mapM_cons]
            rfl
        _ = ((if operand.uses handle then value else operand) ::
                rest.map fun operand => if operand.uses handle then value else operand,
              count + (if operand.uses handle then 1 else 0) +
                rest.countP (·.uses handle)) := by
            rw [hfirst, ih]
        _ = _ := by
            rw [List.map_cons, List.countP_cons, Nat.add_comm (rest.countP _), ← Nat.add_assoc]

/-- Replacing uses one operand after the other counts as many as the operation reads. -/
theorem run_visitOperands_replaceUse (handle : Handle) (value : Operand) (operation : Operation)
    (count : Nat) :
    (operation.visitOperands (replaceUse handle value)).run count =
      (operation.replaceUses handle value, count + operation.useCount handle) := by
  have hvisit := congrArg (·.run count)
    (assemble_mapM_operands (replaceUse handle value) operation)
  simp only [StateT.run_map, run_mapM_replaceUse] at hvisit
  obtain ⟨hoperation, hcount⟩ := Prod.mk.inj hvisit
  rw [assemble_map_operands] at hoperation
  exact Prod.ext (Option.some.inj hoperation).symm hcount.symm

end Operation

/-! ## Replacing uses in a program

Counting and replacing go through the same list of readers, that of the function of the result. -/

namespace Program

variable {program : Program} {handle stale : Handle} {entry : Placed} {function : Function}
  {readers front back : List Handle} {value : Operand}

/-- Goes through the instructions that may read `handle`, and in each through the operands, puts
`value` in the place of every use and counts it at that moment. -/
def replaceUsesInTurn (handle : Handle) (value : Operand) : Edit Nat := do
  let (function, _) ← Edit.query (·.parent handle)
  let handles ← Edit.query (·.handlesOf function)
  handles.foldlM (fun count reader => do
    let instruction ← Edit.query (·.instruction reader)
    let (operation, count) :=
      (instruction.operation.visitOperands (Operation.replaceUse handle value)).run count
    setOperation reader operation
    return count) 0

theorem replaceAllUses_eq_replaceUsesInTurn (handle : Handle) (value : Operand) :
    replaceAllUses handle value = replaceUsesInTurn handle value := by
  unfold replaceUsesInTurn
  simp only [Operation.run_visitOperands_replaceUse]
  rfl

theorem handlesOf_of_unknown {id : FunctionId} (hunknown : program.function? id = none) :
    program.handlesOf id = .error (.unknownFunction id) := by
  simp [handlesOf, function_of_unknown hunknown, Except.map]

section UnknownFunction

variable (hplaced : program.placed? handle = some entry)
  (hunknown : program.function? entry.function = none)
include hplaced hunknown

theorem useCount_of_unknownFunction :
    program.useCount handle = .error (.unknownFunction entry.function) := by
  have hreaders : program.readers handle = .error (.unknownFunction entry.function) := by
    unfold readers
    rw [parent_of_placed? hplaced]
    show (program.handlesOf entry.function >>= _) = _
    rw [handlesOf_of_unknown hunknown]
    rfl
  simp [useCount, hreaders, Except.map]

theorem replaceAllUses_of_unknownFunction (value : Operand) :
    replaceAllUses handle value program = .error (.unknownFunction entry.function) program := by
  unfold replaceAllUses
  rw [bind_apply_of_ok (Edit.query_apply_of_ok (parent_of_placed? hplaced))]
  dsimp only
  rw [bind_apply_of_error (Edit.query_apply_of_error (handlesOf_of_unknown hunknown))]

end UnknownFunction

/-- Of some handles all are live, or one is the first that is stale. -/
theorem exists_first_stale (program : Program) (readers : List Handle) :
    (∀ reader ∈ readers, ∃ entry, program.placed? reader = some entry) ∨
      ∃ front stale back, readers = front ++ stale :: back ∧
        (∀ reader ∈ front, ∃ entry, program.placed? reader = some entry) ∧
        program.placed? stale = none := by
  induction readers with
  | nil => exact .inl (by simp)
  | cons reader rest ih =>
      cases hplaced : program.placed? reader with
      | none => exact .inr ⟨[], reader, rest, rfl, by simp, hplaced⟩
      | some entry =>
          obtain hlive | ⟨front, stale, back, rfl, hfront, hstale⟩ := ih
          · exact .inl (List.forall_mem_cons.mpr ⟨⟨entry, hplaced⟩, hlive⟩)
          · exact .inr ⟨reader :: front, stale, back, rfl,
              List.forall_mem_cons.mpr ⟨⟨entry, hplaced⟩, hfront⟩, hstale⟩

/-- Counting stops at the first reader that is stale. -/
theorem useCount_of_first_stale (hplaced : program.placed? handle = some entry)
    (hfunction : program.function? entry.function = some function)
    (hhandles : function.handles = front ++ stale :: back)
    (hfront : ∀ reader ∈ front, ∃ entry, program.placed? reader = some entry)
    (hstale : program.placed? stale = none) :
    program.useCount handle = .error (.staleHandle stale) := by
  obtain ⟨found, hfound, -⟩ := mapM_instruction hfront
  have hread : function.handles.mapM (fun reader => return (reader, ← program.instruction reader)) =
      (.error (.staleHandle stale) : Except EditError (List (Handle × Instruction))) := by
    rw [hhandles, List.mapM_append, hfound, List.mapM_cons, instruction_of_stale hstale]
    rfl
  have hreaders : program.readers handle = .error (.staleHandle stale) := by
    unfold readers
    rw [parent_of_placed? hplaced]
    show (program.handlesOf entry.function >>= _) = _
    rw [handlesOf_of_function? hfunction]
    exact hread
  simp [useCount, hreaders, Except.map]

/-- Replacing stops at the first reader that is stale. -/
theorem replaceAllUses_of_first_stale (hplaced : program.placed? handle = some entry)
    (hfunction : program.function? entry.function = some function)
    (hhandles : function.handles = front ++ stale :: back)
    (hfront : ∀ reader ∈ front, ∃ entry, program.placed? reader = some entry)
    (hstale : program.placed? stale = none) (hnodup : function.handles.Nodup) (value : Operand) :
    ∃ after, replaceAllUses handle value program = .error (.staleHandle stale) after := by
  have hfrontNodup : front.Nodup := by
    rw [hhandles] at hnodup
    exact (List.nodup_append.mp hnodup).1
  -- the readers in front of the stale one were rewritten by then
  have hafter : (program.rewriteAt (replacing handle value) front).placed? stale = none := by
    rw [placed?_rewriteAt _ hfrontNodup, hstale, Option.map_none]
  refine ⟨program.rewriteAt (replacing handle value) front, ?_⟩
  unfold replaceAllUses
  rw [bind_apply_of_ok (Edit.query_apply_of_ok (parent_of_placed? hplaced))]
  dsimp only
  rw [bind_apply_of_ok (Edit.query_apply_of_ok (handlesOf_of_function? hfunction)), hhandles,
    List.foldlM_append, bind_apply_of_ok (replaceAllUses_loop value hfront hfrontNodup 0),
    List.foldlM_cons, bind_apply_of_error]
  rw [bind_apply_of_error (Edit.query_apply_of_error (instruction_of_stale hafter))]

/-- In a program that lists no handle twice in a function, replacing all uses of a result answers
and is refused as counting them is; and then none is left, unless it was replaced by itself. -/
theorem replaceAllUses_of_listed_once
    (hlisted : ∀ function ∈ program.functions, function.handles.Nodup) (handle : Handle)
    (value : Operand) :
    match program.useCount handle with
    | .ok uses => ∃ after, replaceAllUses handle value program = .ok uses after ∧
        (value.uses handle = false → after.useCount handle = .ok 0)
    | .error problem => ∃ after, replaceAllUses handle value program = .error problem after := by
  cases hplaced : program.placed? handle with
  | none =>
      rw [useCount_of_stale hplaced]
      exact ⟨program, replaceAllUses_of_stale hplaced value⟩
  | some entry =>
      cases hfunction : program.function? entry.function with
      | none =>
          rw [useCount_of_unknownFunction hplaced hfunction]
          exact ⟨program, replaceAllUses_of_unknownFunction hplaced hfunction value⟩
      | some function =>
          have hnodup := hlisted function (List.mem_of_getElem? hfunction)
          obtain hlive | ⟨front, stale, back, hhandles, hfront, hstale⟩ :=
            program.exists_first_stale function.handles
          · rw [useCount_of_live hplaced hfunction hlive]
            exact ⟨_, replaceAllUses_of_live hplaced hfunction hlive hnodup value,
              useCount_rewriteAt hplaced hfunction hlive hnodup⟩
          · rw [useCount_of_first_stale hplaced hfunction hhandles hfront hstale]
            exact replaceAllUses_of_first_stale hplaced hfunction hhandles hfront hstale hnodup
              value

/-- Operands are rewritten in the places where they are read, one after another, and nothing else
is.  In a program as many uses of a result are replaced as were counted before.  This needs that no
function lists a handle twice, as is so in every program that edits make of an empty one. -/
theorem rewriting_agrees :
    (∀ (change : Operand → Operand) (operation : Operation),
      operation.visitOperands (fun operand => (pure (change operand) : Id Operand)) =
          pure (operation.mapOperands change) ∧
        operation.Rewritten change (operation.mapOperands change)) ∧
    (∀ handle value, replaceAllUses handle value = replaceUsesInTurn handle value) ∧
    ∀ program : Program, (∀ function ∈ program.functions, function.handles.Nodup) →
      ∀ handle value, match program.useCount handle with
        | .ok uses => ∃ after, replaceAllUses handle value program = .ok uses after ∧
            (value.uses handle = false → after.useCount handle = .ok 0)
        | .error problem => ∃ after, replaceAllUses handle value program = .error problem after :=
  ⟨fun change operation => ⟨operation.visitOperands_pure change,
      operation.rewritten_mapOperands change⟩,
    replaceAllUses_eq_replaceUsesInTurn,
    fun _ hlisted handle value => replaceAllUses_of_listed_once hlisted handle value⟩

/-- A result that is called with itself, stored and returned, in two blocks. -/
@[irreducible] def readThroughout : Program :=
  Command.run [.addFunction "main" .void [], .addBlock 0 "entry", .addBlock 0 "exit",
    .push 0 0 (.ofOperation (.other "work" [] .pointer)),
    .push 0 0 (.ofOperation
      (.store (.global "flag") (.result ⟨0, 0⟩) false .notAtomic .crossThread)),
    .push 0 0 (.ofOperation
      (.invoke (.indirect (.result ⟨0, 0⟩)) [.result ⟨0, 0⟩, .undefined] .void 1 1)),
    .push 0 1 (.ofOperation (.ret (some (.result ⟨0, 0⟩))))] { name := "readThroughout" }

/-- All four uses are replaced. -/
theorem rewriting_agrees_readThroughout :
    (∀ function ∈ readThroughout.functions, function.handles.Nodup) ∧
    ∃ after, replaceAllUses ⟨0, 0⟩ (.global "handler") readThroughout = .ok 4 after ∧
      after.useCount ⟨0, 0⟩ = .ok 0 := by
  have consistent : readThroughout.Consistent := by
    unfold readThroughout
    exact Command.consistent_run (Command.consistent_empty "readThroughout") _
  have hlisted : ∀ function ∈ readThroughout.functions, function.handles.Nodup := by
    intro function hmem
    obtain ⟨id, hfunction⟩ := List.mem_iff_getElem?.mp hmem
    exact consistent.nodup_function hfunction
  have huses : readThroughout.useCount ⟨0, 0⟩ = .ok 4 := by decide +kernel
  have hagrees := rewriting_agrees.2.2 readThroughout hlisted ⟨0, 0⟩ (.global "handler")
  rw [huses] at hagrees
  obtain ⟨after, hanswer, hunused⟩ := hagrees
  exact ⟨hlisted, after, hanswer, hunused rfl⟩

end Program

end ConcurrencyFaults
