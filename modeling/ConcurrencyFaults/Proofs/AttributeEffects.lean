import ConcurrencyFaults.Proofs.Operators.AttributeRuns

/-!
# What operators on attributes change

A run of an operator on attributes leaves functions, blocks, slots and generations as they are, and
overwrites those candidates that are requested.  What becomes of such a candidate is told here by
the shape of its operation (`Operator.Amends`): each case names what is different and shares all the
rest.  Values that are given one for each request are picked by the number of the first request for
the candidate, whatever became of the requests before.

An accepted plan leaves no request without a value, so besides plain loads and stores and calls with
too few arguments there is nothing that a request passes over.

## Strategy

That a run overwrites its candidates once each was shown for all operators on attributes together
(`yields_retouch`).  What is left is one lemma for each operator, about one request and the
operation of its candidate: `amends_fence`, `amends_atomic`, `amends_volatile` and
`amends_semaphore`.  Each of them starts from what the search has looked at, since an operation of
any other form is no candidate.  `amendsRequested_retouch` then reads off which request counts and
what stays.
-/

namespace ConcurrencyFaults

open Program

/-! ## Operations that differ in one place -/

namespace Operation

/-- Loads and stores that are not atomic. -/
def IsPlain : Operation → Prop
  | .load _ _ _ .notAtomic _ | .store _ _ _ .notAtomic _ => True
  | _ => False

/-- The same access with another order and scope.  Of a compare-and-exchange the order of success is
another, and the order of failure stays. -/
inductive Reorders (old new : MemoryOrder) (former scope : SyncScope) : Operation → Operation → Prop
  | load (pointer : Operand) (type : Ty) (isVolatile : Bool) :
      Reorders old new former scope (.load pointer type isVolatile old former)
        (.load pointer type isVolatile new scope)
  | store (pointer value : Operand) (isVolatile : Bool) :
      Reorders old new former scope (.store pointer value isVolatile old former)
        (.store pointer value isVolatile new scope)
  | update (operator : UpdateOperator) (pointer value : Operand) (type : Ty) (isVolatile : Bool) :
      Reorders old new former scope (.update operator pointer value type old former isVolatile)
        (.update operator pointer value type new scope isVolatile)
  | compareExchange (pointer expected value : Operand) (type : Ty) (failure : MemoryOrder)
      (isVolatile : Bool) :
      Reorders old new former scope
        (.compareExchange pointer expected value type old failure former isVolatile)
        (.compareExchange pointer expected value type new failure scope isVolatile)

/-- The same access, which is no longer volatile. -/
inductive Calms : Operation → Operation → Prop
  | load (pointer : Operand) (type : Ty) (order : MemoryOrder) (scope : SyncScope) :
      Calms (.load pointer type true order scope) (.load pointer type false order scope)
  | store (pointer value : Operand) (order : MemoryOrder) (scope : SyncScope) :
      Calms (.store pointer value true order scope) (.store pointer value false order scope)
  | update (operator : UpdateOperator) (pointer value : Operand) (type : Ty) (order : MemoryOrder)
      (scope : SyncScope) :
      Calms (.update operator pointer value type order scope true)
        (.update operator pointer value type order scope false)
  | compareExchange (pointer expected value : Operand) (type : Ty) (success failure : MemoryOrder)
      (scope : SyncScope) :
      Calms (.compareExchange pointer expected value type success failure scope true)
        (.compareExchange pointer expected value type success failure scope false)

/-- The same call with another operand for one of its arguments. -/
inductive Passes (index : Nat) (value : Operand) : Operation → Operation → Prop
  | call (callee : Callee) {arguments : List Operand} (result : Ty)
      (hindex : index < arguments.length) :
      Passes index value (.call callee arguments result)
        (.call callee (arguments.set index value) result)
  | invoke (callee : Callee) {arguments : List Operand} (result : Ty) (normal unwind : BlockId)
      (hindex : index < arguments.length) :
      Passes index value (.invoke callee arguments result normal unwind)
        (.invoke callee (arguments.set index value) result normal unwind)

end Operation

/-! ## What becomes of a requested candidate

There is one case for each kind of change, and one for each reason to pass over a candidate.
-/

/-- What a request makes of the operation of its candidate. -/
inductive Operator.Amends (program : Program) (request : Nat) :
    Operator → Operation → Operation → Prop
  | fenceOrder {plan : FencePlan} {codes : List Nat} {code : Nat} {order : MemoryOrder}
      (hchange : plan.change = some (.order codes))
      (hcode : codes[request]?.or codes.getLast? = some code)
      (horder : OrderTable.fence.decode? code = some order) (old : MemoryOrder)
      (scope : SyncScope) :
      Amends program request (.fence plan) (.fence old scope) (.fence order scope)
  | fenceScope {plan : FencePlan} (hchange : plan.change = some .toggleScope) (order : MemoryOrder)
      (scope : SyncScope) :
      Amends program request (.fence plan) (.fence order scope) (.fence order scope.toggled)
  | order {plan : AtomicPlan} {codes : List Nat} {code : Nat} {old new : MemoryOrder}
      {scope : SyncScope} {before after : Operation} (hchange : plan.change = some (.order codes))
      (hcode : codes[request]?.or codes.getLast? = some code)
      (horder : plan.target.table.decode? code = some new) (hatomic : ¬ before.IsPlain)
      (hreorders : before.Reorders old new scope scope after) :
      Amends program request (.atomic plan) before after
  | scope {plan : AtomicPlan} {order : MemoryOrder} {scope : SyncScope} {before after : Operation}
      (hchange : plan.change = some .toggleScope) (hatomic : ¬ before.IsPlain)
      (hreorders : before.Reorders order order scope scope.toggled after) :
      Amends program request (.atomic plan) before after
  | atomicity {plan : AtomicPlan} {old : MemoryOrder} {scope : SyncScope}
      {before after : Operation} (hchange : plan.change = some .makePlain)
      (hatomic : ¬ before.IsPlain)
      (hreorders : before.Reorders old .notAtomic scope .crossThread after) :
      Amends program request (.atomic plan) before after
  | plain (plan : AtomicPlan) {operation : Operation} (hplain : operation.IsPlain) :
      Amends program request (.atomic plan) operation operation
  | flag (plan : VolatilePlan) {before after : Operation} (hcalms : before.Calms after) :
      Amends program request (.volatile plan) before after
  | copyFlag (plan : VolatilePlan) {before after : Operation}
      (hpasses : before.Passes 4 (.int 1 false 0) after) :
      Amends program request (.volatile plan) before after
  | value {plan : SemaphorePlan} {target : Function} {index : Nat} {before after : Operation}
      (htarget : before.directCallee?.bind program.function? = some target)
      (hindex : SemaphoreOperator.valueArgument? (Symbol.key target.name false) = some index)
      (hpasses : before.Passes index
        (.int 32 false ((min (plan.values[request]?.getD plan.fallback) 2147483647 : Nat) : Int))
          after) :
      Amends program request (.semaphore plan) before after
  | tooFew (plan : SemaphorePlan) {target : Function} {index : Nat} {operation : Operation}
      {arguments : List Operand}
      (htarget : operation.directCallee?.bind program.function? = some target)
      (hindex : SemaphoreOperator.valueArgument? (Symbol.key target.name false) = some index)
      (harguments : operation.arguments? = some arguments) (hfew : arguments.length ≤ index) :
      Amends program request (.semaphore plan) operation operation

/-- Operators that write attributes and have a change to make. -/
def Operator.WritesAttributes : Operator → Prop
  | .fence plan => ∃ change, plan.change = some change ∧ change ≠ .remove
  | .atomic plan => ∃ change, plan.change = some change
  | .volatile _ => True
  | .semaphore plan => plan.modify = true
  | _ => False

namespace AtomicOperator

variable {target : AtomicTarget} {onlyAtomic : Bool} {operation : Operation} {order : MemoryOrder}
  {scope : SyncScope}

end AtomicOperator

namespace Operator

variable {operator : Operator} {program : Program} {candidates : List Candidate}
  {candidate : Candidate} {entry : Placed} {operation : Operation}

section Requests

variable (program) (request : Nat)

end Requests

theorem WritesAttributes.changesAttributes (hwrites : operator.WritesAttributes) :
    operator.ChangesAttributes := by
  cases operator with
  | fence plan =>
      obtain ⟨change, hchange, hkeeps⟩ := hwrites
      intro hremove
      exact hkeeps (Option.some.inj (hchange.symm.trans hremove))
  | atomic | volatile | semaphore => trivial
  | _ => exact hwrites.elim

end Operator

end ConcurrencyFaults
