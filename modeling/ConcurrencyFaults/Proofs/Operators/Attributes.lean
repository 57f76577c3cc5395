import ConcurrencyFaults.Proofs.Operators.Candidates

/-!
# Operators on attributes

Some operators write attributes and move nothing: the order or scope of a fence, those of an atomic
access, the volatile flag, and the initial value of a semaphore.  What such an operator makes of a
candidate depends on the operation that is there and on nothing else in the program
(`Operator.amended?`), and it writes one operation over another (`Operator.writes_change`).

Of a fence it is the operator that decides whether a request counts as a change, of all others what
became of the operation (`Operator.counts`).

A request that changes nothing is taken to write the operation that is there (`Work.writes_pure`,
`Work.writes_skip`), so that every case of every operator comes to one statement.
-/

namespace ConcurrencyFaults

open Program Work

/-! ## What a request makes of an operation

These are the operators without their program: the attributes that are there, those that the request
asks for, and the new operation, or none if the request does not apply. -/

namespace FenceOperator

/-- The fence that a change makes of a fence.  An order that cannot be read changes nothing. -/
def amended? (change : FenceChange) (request : Nat) (operation : Operation) : Option Operation :=
  (fence? operation).bind fun (order, scope) =>
    match change with
    | .remove => none
    | .toggleScope => some (.fence order scope.toggled)
    | .order codes =>
        ((nthOrLast codes request).bind OrderTable.fence.decode?).map fun order =>
          .fence order scope

end FenceOperator

namespace AtomicOperator

/-- The order and scope that a change gives to an access. -/
def decided? (target : AtomicTarget) (change : AtomicChange) (request : Nat)
    (operation : Operation) : Option (MemoryOrder × SyncScope) :=
  (access? operation).bind fun (order, scope) =>
    (decide target change request order scope).toOption.map fun (order, scope, _, _) =>
      (order, scope)

/-- What is decided, without the warnings: of plain loads and stores nothing can be changed. -/
theorem decided?_eq (target : AtomicTarget) (change : AtomicChange) (request : Nat)
    (operation : Operation) :
    decided? target change request operation = (access? operation).bind fun (order, scope) =>
      match change with
      | .makePlain => if order.isAtomic then some (.notAtomic, .crossThread) else none
      | .order codes =>
          if mayBePlain target && !order.isAtomic then none
          else ((nthOrLast codes request).bind target.table.decode?).map (·, scope)
      | .toggleScope =>
          if mayBePlain target && !order.isAtomic then none else some (order, scope.toggled) := by
  unfold decided? decide
  refine congrArg (access? operation).bind (funext fun (order, scope) => ?_)
  cases change with
  | makePlain =>
      dsimp only
      cases order.isAtomic <;> rfl
  | order codes =>
      dsimp only
      cases mayBePlain target && !order.isAtomic with
      | true => rfl
      | false => cases (nthOrLast codes request).bind target.table.decode? <;> rfl
  | toggleScope =>
      dsimp only
      cases mayBePlain target && !order.isAtomic <;> rfl

/-- The access that a change makes of an access. -/
def amended? (target : AtomicTarget) (change : AtomicChange) (request : Nat)
    (operation : Operation) : Option Operation :=
  (decided? target change request operation).map fun (order, scope) =>
    withAccess order scope operation

end AtomicOperator

namespace SemaphoreOperator

/-- The value for a request, without the warnings. -/
def valueAt (plan : SemaphorePlan) (request : Nat) : Nat :=
  min (plan.values[request]?.getD plan.fallback) SemaphorePlan.maxValue

/-- The call with another initial value, if it has one. -/
def amended? (site : CallSite) (value : Nat) (operation : Operation) : Option Operation := do
  let index ← valueArgument? site.name
  let arguments ← operation.arguments?
  if index < site.argumentCount ∧ index < arguments.length then
    some (operation.withArguments (arguments.set index (.int 32 false value)))
  else none

end SemaphoreOperator

namespace Operator

/-- Operators that write attributes.  Of the operators on fences these are the ones that erase
none. -/
def ChangesAttributes : Operator → Prop
  | .fence plan => plan.change ≠ some .remove
  | .atomic _ | .volatile _ | .semaphore _ => True
  | .lock _ | .join _ | .signal _ | .wait _ | .yield _ => False

/-- What a request for a candidate makes of the operation that is there. -/
def amended? (operator : Operator) (request : Nat) (candidate : Candidate)
    (operation : Operation) : Option Operation :=
  match operator, candidate with
  | .fence plan, .access _ =>
      plan.change.bind fun change => FenceOperator.amended? change request operation
  | .atomic plan, .access _ =>
      plan.change.bind fun change => AtomicOperator.amended? plan.target change request operation
  | .volatile _, .access _ => VolatileOperator.cleared? operation
  | .semaphore plan, .call site =>
      SemaphoreOperator.amended? site (SemaphoreOperator.valueAt plan request) operation
  | _, _ => none

/-- The operation after a request, whether or not it was changed. -/
def amend (operator : Operator) (request : Nat) (candidate : Candidate)
    (operation : Operation) : Operation :=
  (operator.amended? request candidate operation).getD operation

/-- Whether a request counts as a change.  Fences count whatever becomes of them. -/
def counts (operator : Operator) (request : Nat) (candidate : Candidate)
    (operation : Operation) : Bool :=
  match operator, candidate with
  | .fence plan, .access _ => plan.change.isSome
  | operator, candidate => (operator.amended? request candidate operation).isSome

end Operator

/-! ## Volatile accesses

Clearing is final: what was cleared is no candidate any more. -/

/-- A volatile copy has its flag among its arguments. -/
theorem MemorySite.exists_arguments?_of_copy {program : Program} {operation : Operation}
    (hcopied : isVolatileCopy program operation = true) :
    ∃ arguments, operation.arguments? = some arguments ∧ copyFlagArgument < arguments.length := by
  unfold isVolatileCopy at hcopied
  split at hcopied
  · cases hcopied
  · obtain ⟨-, hflag⟩ := Bool.and_eq_true_iff.mp hcopied
    obtain ⟨constant, hconstant, -⟩ := Option.bind_eq_some_iff.mp (beq_iff_eq.mp hflag)
    obtain ⟨flag, hflag, -⟩ := Option.bind_eq_some_iff.mp hconstant
    obtain ⟨arguments, harguments, hflag⟩ := Option.bind_eq_some_iff.mp hflag
    exact ⟨arguments, harguments, (List.getElem?_eq_some_iff.mp hflag).1⟩

/-- With its flag cleared, a copy is volatile no more. -/
theorem MemorySite.isVolatileCopy_clearFlag (program : Program) {operation : Operation}
    {arguments : List Operand} (harguments : operation.arguments? = some arguments)
    (hindex : copyFlagArgument < arguments.length) :
    isVolatileCopy program (operation.withArguments
      (arguments.set copyFlagArgument VolatileOperator.clearFlag)) = false := by
  have hcleared : (operation.withArguments
        (arguments.set copyFlagArgument VolatileOperator.clearFlag)).arguments? =
      some (arguments.set copyFlagArgument VolatileOperator.clearFlag) := by
    cases operation with
    | call | invoke => rfl
    | _ => cases harguments
  unfold isVolatileCopy
  split
  · rfl
  · rw [hcleared, Option.bind_some, List.getElem?_set_self hindex, Option.bind_some]
    exact Bool.and_false _

theorem VolatileOperator.volatileKind?_cleared {program : Program} {operation : Operation}
    (hkind : (MemorySite.volatileKind? program operation).isSome) :
    MemorySite.volatileKind? program ((cleared? operation).getD operation) = none := by
  cases operation with
  | load _ _ isVolatile | store _ _ isVolatile | update _ _ _ _ _ _ isVolatile
  | compareExchange _ _ _ _ _ _ _ isVolatile =>
      cases isVolatile with
      | true => rfl
      | false => cases hkind
  | call | invoke =>
      obtain ⟨kind, hkind⟩ := Option.isSome_iff_exists.mp hkind
      obtain ⟨arguments, harguments, hindex⟩ :=
        MemorySite.exists_arguments?_of_copy (Option.ite_none_right_eq_some.mp hkind).1
      have hcleared := MemorySite.isVolatileCopy_clearFlag program harguments hindex
      obtain rfl := Option.some.inj harguments
      simp only [cleared?, Operation.arguments?, if_pos hindex, Option.getD_some]
      exact if_neg (by rw [hcleared]; exact Bool.false_ne_true)
  | _ => cases hkind

/-! ## Requests on single candidates

One lemma for each operator, then all of them together (`Operator.writes_change`). -/

/-- Work that gives an answer and writes an operation. -/
abbrev Work.Writes {Answer : Type} (work : Work Answer) (state : Workspace) (handle : Handle)
    (operation : Operation) (answer : Answer) : Prop :=
  Runs work state (fun given after => given = answer ∧
    after.program = state.program.modifyInstruction handle (·.withOperation operation))
    fun _ _ => False

section Writes

variable {Answer : Type} {state : Workspace} {handle : Handle} {entry : Placed}

/-- An operation that is written over itself stays. -/
theorem Program.modifyInstruction_withOperation {program : Program}
    (hplaced : program.placed? handle = some entry) :
    program.modifyInstruction handle (·.withOperation entry.instruction.operation) = program :=
  modifyInstruction_eq_self hplaced rfl

theorem Work.writes_pure (hplaced : state.program.placed? handle = some entry) (answer : Answer) :
    Work.Writes (pure answer) state handle entry.instruction.operation answer :=
  runs_pure ⟨rfl, (modifyInstruction_withOperation hplaced).symm⟩

theorem Work.writes_skip (hplaced : state.program.placed? handle = some entry) (message : String)
    (answer : Answer) :
    Work.Writes (do
      warn message
      return answer) state handle entry.instruction.operation answer :=
  runs_bind_warn (runs_pure ⟨rfl, (modifyInstruction_withOperation hplaced).symm⟩)

theorem Work.writes_setOperation (hplaced : state.program.placed? handle = some entry)
    (operation : Operation) (pass : String) (kind : EntryKind) (function : FunctionId)
    (message : String) (answer : Answer) :
    Work.Writes (do
      edit (setOperation handle operation)
      recordChange pass kind function message
      return answer) state handle operation answer :=
  runs_bind_edit (changeInstruction_of_placed? hplaced _)
    (runs_bind_recordChange fun _ => runs_pure ⟨rfl, rfl⟩)

end Writes

section Requests

variable {state : Workspace} {entry : Placed} {site : MemorySite}

theorem FenceOperator.writes_apply (hplaced : state.program.placed? site.handle = some entry)
    {change : FenceChange} (hchange : change ≠ .remove) (request : Nat) :
    Work.Writes (do
      FenceOperator.apply change request site
      return true) state site.handle
      ((FenceOperator.amended? change request entry.instruction.operation).getD
        entry.instruction.operation) true := by
  have hinstruction := instruction_of_placed? hplaced
  cases change with
  | remove => exact absurd rfl hchange
  | toggleScope =>
      simp only [FenceOperator.apply, toggleScope, amended?, bind_assoc]
      refine runs_bind_query hinstruction ?_
      cases fence? entry.instruction.operation with
      | none => exact writes_pure hplaced true
      | some attributes =>
          simp only [bind_assoc]
          exact writes_setOperation hplaced _ _ _ _ _ true
  | order codes =>
      simp only [FenceOperator.apply, amended?]
      cases (nthOrLast codes request).bind OrderTable.fence.decode? with
      | none =>
          -- the request is passed over, whether or not there is a fence
          cases fence? entry.instruction.operation <;> exact writes_skip hplaced _ true
      | some order =>
          simp only [changeOrder, bind_assoc]
          refine runs_bind_query hinstruction ?_
          cases fence? entry.instruction.operation with
          | none => exact writes_pure hplaced true
          | some attributes =>
              simp only [bind_assoc]
              exact writes_setOperation hplaced _ _ _ _ _ true

theorem AtomicOperator.writes_apply (hplaced : state.program.placed? site.handle = some entry)
    (target : AtomicTarget) (change : AtomicChange) (request : Nat) :
    Work.Writes (AtomicOperator.apply target change request site) state site.handle
      ((AtomicOperator.amended? target change request entry.instruction.operation).getD
        entry.instruction.operation)
      (AtomicOperator.amended? target change request entry.instruction.operation).isSome := by
  unfold AtomicOperator.apply amended? decided?
  refine runs_bind_query (instruction_of_placed? hplaced) ?_
  cases access? entry.instruction.operation with
  | none => exact writes_pure hplaced false
  | some attributes =>
      obtain ⟨order, scope⟩ := attributes
      dsimp only [Option.bind_some]
      cases decide target change request order scope with
      | error warning => exact writes_skip hplaced warning false
      | ok decided => exact writes_setOperation hplaced _ _ _ _ _ true

theorem VolatileOperator.writes_clear (hplaced : state.program.placed? site.handle = some entry) :
    Work.Writes (VolatileOperator.clear site) state site.handle
      ((VolatileOperator.cleared? entry.instruction.operation).getD entry.instruction.operation)
      (VolatileOperator.cleared? entry.instruction.operation).isSome := by
  unfold VolatileOperator.clear
  refine runs_bind_query (instruction_of_placed? hplaced) ?_
  cases VolatileOperator.cleared? entry.instruction.operation with
  | none => exact writes_pure hplaced false
  | some operation => exact writes_setOperation hplaced _ _ _ _ _ true

namespace SemaphoreOperator

/-- The value is found whatever it is, and only warnings are left. -/
theorem runs_valueFor_valueAt (plan : SemaphorePlan) (request : Nat) :
    Runs (valueFor plan request) state
      (fun value after => value = valueAt plan request ∧ after.program = state.program)
      fun _ _ => False := by
  unfold valueFor
  extract_lets rest
  have hrest (value : Nat) (between : Workspace) (hprogram : between.program = state.program)
      (hvalue : min value SemaphorePlan.maxValue = valueAt plan request) :
      Runs (rest value) between
        (fun value after => value = valueAt plan request ∧ after.program = state.program)
        fun _ _ => False := by
    simp only [rest]
    split
    · rename_i hlarge
      exact runs_bind_warn (runs_pure ⟨(Nat.min_eq_right (Nat.le_of_lt hlarge)).symm.trans hvalue,
        hprogram⟩)
    · rename_i hsmall
      exact runs_pure ⟨(Nat.min_eq_left (Nat.not_lt.mp hsmall)).symm.trans hvalue, hprogram⟩
  split
  · rename_i value hvalue
    exact hrest value state rfl (by simp [valueAt, hvalue])
  · rename_i hvalue
    exact runs_bind_warn (hrest plan.fallback _ rfl (by simp [valueAt, hvalue]))

theorem writes_setValue {site : CallSite}
    (hplaced : state.program.placed? site.handle = some entry) (value : Nat) :
    Work.Writes (setValue site value) state site.handle
      ((amended? site value entry.instruction.operation).getD entry.instruction.operation)
      (amended? site value entry.instruction.operation).isSome := by
  unfold setValue amended?
  cases valueArgument? site.name with
  | none => exact writes_pure hplaced false
  | some index =>
      dsimp only [Option.bind_eq_bind, Option.bind_some]
      -- the count is taken of the captured call, the arguments of the one that is there
      by_cases hcount : site.argumentCount ≤ index
      · rw [if_pos hcount]
        have hnone (arguments : List Operand) :
            ¬ (index < site.argumentCount ∧ index < arguments.length) := fun hboth =>
          absurd hcount (Nat.not_le.mpr hboth.1)
        cases entry.instruction.operation.arguments? with
        | none => exact writes_skip hplaced _ false
        | some arguments =>
            rw [Option.bind_some, if_neg (hnone arguments)]
            exact writes_skip hplaced _ false
      rw [if_neg hcount]
      refine runs_bind_query (instruction_of_placed? hplaced) ?_
      cases entry.instruction.operation.arguments? with
      | none => exact writes_pure hplaced false
      | some arguments =>
          rw [Option.bind_some]
          by_cases hindex : index < arguments.length
          · rw [if_pos ⟨Nat.lt_of_not_le hcount, hindex⟩]
            dsimp only
            rw [List.getElem?_eq_getElem hindex]
            exact runs_bind_edit (changeInstruction_of_placed? hplaced _) (runs_bind_markEdited
              (runs_bind_recordChange fun _ => runs_pure ⟨rfl, rfl⟩))
          · rw [if_neg fun hboth => hindex hboth.2]
            dsimp only
            rw [List.getElem?_eq_none (Nat.not_lt.mp hindex)]
            exact writes_pure hplaced false

end SemaphoreOperator

/-- A request for a candidate that is there amends it and does nothing else. -/
theorem Operator.writes_change {operator : Operator} (hattributes : operator.ChangesAttributes)
    {candidate : Candidate} (hplaced : state.program.placed? candidate.handle = some entry)
    (request : Nat) :
    Work.Writes (operator.change request candidate) state candidate.handle
      (operator.amend request candidate entry.instruction.operation)
      (operator.counts request candidate entry.instruction.operation) := by
  cases candidate with
  | access site =>
      cases operator with
      | fence plan =>
          simp only [Operator.change, amend, amended?, counts]
          unfold ChangesAttributes at hattributes
          cases hchange : plan.change with
          | none => exact writes_pure hplaced false
          | some change =>
              exact FenceOperator.writes_apply hplaced
                (fun heq => hattributes (by rw [hchange, heq])) request
      | atomic plan =>
          simp only [Operator.change, amend, amended?, counts]
          cases plan.change with
          | none => exact writes_pure hplaced false
          | some change => exact AtomicOperator.writes_apply hplaced plan.target change request
      | volatile plan => exact VolatileOperator.writes_clear hplaced
      | semaphore plan => exact writes_pure hplaced false
      | _ => exact hattributes.elim
  | call site =>
      cases operator with
      | semaphore plan =>
          refine (SemaphoreOperator.runs_valueFor_valueAt plan request).bind
            fun value after hvalue => ?_
          obtain ⟨rfl, hprogram⟩ := hvalue
          have hset := @SemaphoreOperator.writes_setValue after entry site (hprogram ▸ hplaced)
            (SemaphoreOperator.valueAt plan request)
          exact hset.weaken fun _ _ hwrites => ⟨hwrites.1, hprogram ▸ hwrites.2⟩
      | fence | atomic | volatile => exact writes_pure hplaced false
      | _ => exact hattributes.elim

end Requests

end ConcurrencyFaults
