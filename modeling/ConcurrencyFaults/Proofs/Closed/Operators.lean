import ConcurrencyFaults.Operator
import ConcurrencyFaults.Proofs.Arena.Commands
import ConcurrencyFaults.Proofs.Closed.Edits
import ConcurrencyFaults.Proofs.Operators.Locks

/-!
# Operators that bring in no captured arguments

Most operators remove calls, overwrite accesses in place, or insert code whose operands are
constants.  They keep every program sealed, request by request, whatever the requests are about
(`Work.Keeps Sealed`).

Two more copy operands, but erase nothing: a split repeats the arguments of a lock pair, and a moved
deadline reads the time that a wait points to.  What was local when the run started is local until
its end, because everything is left that was there at the start (`Program.Extended`).
-/

namespace ConcurrencyFaults

open Program Work

/-! ## Calls

A call that is removed or replaced by a sleep takes no captured argument with it. -/

namespace Condition

theorem keeps_remove (pass : String) (site : CallSite) : Work.Keeps Sealed (remove pass site) :=
  (keeps_edit (site.keeps_remove 32 true)).bind fun _ => (keeps_markEdited _).bind fun _ =>
    keeps_recordChange.bind fun _ => keeps_pure _

end Condition

theorem keeps_skip {invariant : Program → Prop} (message : String) :
    Work.Keeps invariant (do
      Work.warn message
      return false : Work Bool) :=
  (keeps_warn message).bind fun _ => keeps_pure false

namespace YieldOperator

theorem keeps_remove (site : CallSite) : Work.Keeps Sealed (remove site) := by
  refine (keeps_query _).bind fun uses => ?_
  split
  · exact keeps_skip _
  · exact (keeps_edit site.keeps_branchToNormal).bind fun _ =>
      (keeps_edit (keeps_erase site.handle)).bind fun _ => (keeps_markEdited _).bind fun _ =>
        keeps_recordChange.bind fun _ => keeps_pure _

theorem keeps_run (plan : YieldPlan) : Work.Keeps Sealed (run plan) :=
  (keeps_query _).bind fun _ => keeps_anyCall fun _ site _ => keeps_remove site

end YieldOperator

namespace JoinOperator

theorem keeps_remove (site : CallSite) : Work.Keeps Sealed (remove site) :=
  (keeps_edit (site.keeps_remove 32 true)).bind fun _ =>
    keeps_recordChange.bind fun _ => keeps_pure _

theorem keeps_sleepBefore (site : CallSite) {sleep : Instruction}
    (hreads : sleep.operation.ReadsNothing) :
    Keeps Sealed (sleepBefore site sleep) := by
  refine (keeps_insertBefore site.handle hreads).bind fun handle => ?_
  extract_lets rest
  -- the call goes whether or not a branch was put behind the sleep
  have hrest : ∀ done, Keeps Sealed (rest done) := fun _ =>
    (keeps_erase site.handle).bind fun _ => .pure _
  split
  · exact hrest ()
  · exact (keeps_insertBefore site.handle (fun _ hmem => absurd hmem List.not_mem_nil)).bind
      fun _ => hrest ()

theorem keeps_replaceWithSleep (site : CallSite) (seconds : Nat) :
    Work.Keeps Sealed (replaceWithSleep site seconds) := by
  unfold replaceWithSleep
  extract_lets isStandard rest
  have hrest : ∀ uses, Work.Keeps Sealed (rest uses) := by
    intro uses
    simp only [rest]
    split
    · exact keeps_skip _
    · refine (keeps_update fun program sealed => sealed.getOrDeclare ..).bind fun target => ?_
      -- the sleep reads a constant alone
      have hreads :
          (Operation.call (.direct target) [.int 32 true seconds] .status).ReadsNothing := by
        simp [Operation.ReadsNothing, Operation.operands, Callee.operands, Operand.int,
          Operand.handle?]
      refine (keeps_edit ?_).bind fun handle => (keeps_markEdited _).bind fun _ =>
        keeps_recordChange.bind fun _ => keeps_pure _
      split
      · exact keeps_sleepBefore site hreads
      · exact site.keeps_replace hreads
  split
  · exact (keeps_query _).bind hrest
  · exact hrest 0

theorem keeps_run (plan : JoinPlan) : Work.Keeps Sealed (run plan) := by
  unfold run
  cases plan.change with
  | none => exact keeps_pure false
  | some change =>
      dsimp only
      split
      · exact keeps_skip _
      · refine (keeps_query _).bind fun found => keeps_anyCall fun _ site _ => ?_
        have happly : Work.Keeps Sealed (JoinOperator.apply change site) := by
          cases change with
          | remove => exact keeps_remove site
          | sleep seconds => exact keeps_replaceWithSleep site seconds
        exact happly.bind fun changed => (keeps_markEdited _).bind fun _ => keeps_pure _

end JoinOperator

/-! ## Overwriting in place

Here the operator looks the instruction up and writes it back with another order, scope or constant.
What it reads afterwards it read before, or is no result. -/

/-- Looking up an instruction is refused only if it is gone. -/
theorem runs_bind_instruction {workspace : Workspace} {Answer : Type} {handle : Handle}
    {next : Instruction → Work Answer} {answered : Answer → Workspace → Prop}
    {refused : EditError → Workspace → Prop}
    (hnext : ∀ entry, workspace.program.placed? handle = some entry →
      Runs (next entry.instruction) workspace answered refused)
    (hstale : ∀ problem, refused problem workspace) :
    Runs (Work.query (·.instruction handle) >>= next) workspace answered refused := by
  refine runs_bind_query_of (fun instruction hinstruction => ?_) fun problem _ => hstale problem
  obtain ⟨entry, hplaced, rfl⟩ := Except.map_eq_ok_iff.mp hinstruction
  exact hnext entry (placed_eq_ok_iff.mp hplaced)

/-- An instruction may be overwritten by one that reads nothing new. -/
theorem runs_overwrite {workspace : Workspace} {handle : Handle} {entry : Placed}
    {operation : Operation} {Answer : Type} {next : Unit → Work Answer}
    (sealed : workspace.program.Sealed)
    (hplaced : workspace.program.placed? handle = some entry)
    (hreads : ∀ operand ∈ operation.operands,
      operand ∈ entry.instruction.operation.operands ∨ operand.handle? = none)
    (hnext : ∀ done, Work.Keeps Sealed (next done)) :
    Runs (Work.edit (setOperation handle operation) >>= next) workspace
      (fun _ after => after.program.Sealed) (fun _ after => after.program.Sealed) :=
  (runs_edit (runs_setOperation sealed (sealed.welcomes hplaced hreads))).bind
    fun done after => hnext done after

namespace FenceOperator

theorem readsNothing_fence {order : MemoryOrder} {scope : SyncScope} :
    (Operation.fence order scope).ReadsNothing :=
  fun _ hmem => absurd hmem List.not_mem_nil

theorem keeps_apply (change : FenceChange) (request : Nat) (site : MemorySite) :
    Work.Keeps Sealed (FenceOperator.apply change request site) := by
  cases change with
  | remove => exact (keeps_edit (keeps_erase site.handle)).bind fun _ => keeps_recordChange
  | toggleScope =>
      refine (keeps_query _).bind fun instruction => ?_
      split
      · exact keeps_pure _
      · exact (keeps_edit (keeps_setOperation _ readsNothing_fence)).bind fun _ =>
          keeps_recordChange
  | order codes =>
      unfold FenceOperator.apply
      dsimp only
      split
      · refine (keeps_query _).bind fun instruction => ?_
        split
        · exact keeps_pure _
        · exact (keeps_edit (keeps_setOperation _ readsNothing_fence)).bind fun _ =>
            keeps_recordChange
      · exact keeps_warn _

theorem keeps_run (plan : FencePlan) : Work.Keeps Sealed (run plan) := by
  unfold run
  cases plan.change with
  | none => exact keeps_pure false
  | some change =>
      exact keeps_get.bind fun _ => keeps_anySite fun request site =>
        (keeps_apply change request site).bind fun _ => keeps_pure true

end FenceOperator

namespace AtomicOperator

@[simp] theorem operands_withAccess (order : MemoryOrder) (scope : SyncScope)
    (operation : Operation) : (withAccess order scope operation).operands = operation.operands := by
  cases operation <;> rfl

theorem keeps_apply (target : AtomicTarget) (change : AtomicChange) (request : Nat)
    (site : MemorySite) : Work.Keeps Sealed (AtomicOperator.apply target change request site) := by
  intro workspace sealed
  refine runs_bind_instruction (fun entry hplaced => ?_) fun _ => sealed
  split
  · exact runs_pure sealed
  · split
    · exact keeps_skip _ workspace sealed
    · exact runs_overwrite sealed hplaced (fun operand hmem => Or.inl (by simpa using hmem))
        fun _ => keeps_recordChange.bind fun _ => keeps_pure true

theorem keeps_run (plan : AtomicPlan) : Work.Keeps Sealed (run plan) := by
  unfold run
  cases plan.change with
  | none => exact keeps_pure false
  | some change => exact keeps_get.bind fun _ => keeps_anySite (keeps_apply plan.target change)

end AtomicOperator

/-- With one argument overwritten by a constant a call reads nothing new. -/
theorem Operation.operands_withArguments_set {operation : Operation} {arguments : List Operand}
    (hcall : operation.arguments? = some arguments) (index : Nat) {value : Operand}
    (hvalue : value.handle? = none) :
    ∀ operand ∈ (operation.withArguments (arguments.set index value)).operands,
      operand ∈ operation.operands ∨ operand.handle? = none := by
  intro operand hmem
  cases operation with
  | call callee | invoke callee =>
      obtain rfl := Option.some.inj hcall
      rcases List.mem_append.mp hmem with hargument | hcallee
      · rcases List.mem_or_eq_of_mem_set hargument with hold | rfl
        · exact Or.inl (List.mem_append_left _ hold)
        · exact Or.inr hvalue
      · exact Or.inl (List.mem_append_right _ hcallee)
  | _ => cases hcall

namespace VolatileOperator

theorem operands_of_cleared? {operation cleared : Operation}
    (hcleared : cleared? operation = some cleared) :
    ∀ operand ∈ cleared.operands, operand ∈ operation.operands ∨ operand.handle? = none := by
  unfold cleared? at hcleared
  -- the four accesses keep their operands, a call has its flag set to a constant
  split at hcleared
  · obtain rfl := Option.some.inj hcleared
    exact fun operand hmem => Or.inl hmem
  · obtain rfl := Option.some.inj hcleared
    exact fun operand hmem => Or.inl hmem
  · obtain rfl := Option.some.inj hcleared
    exact fun operand hmem => Or.inl hmem
  · obtain rfl := Option.some.inj hcleared
    exact fun operand hmem => Or.inl hmem
  · split at hcleared
    · cases hcleared
    · rename_i arguments harguments
      split at hcleared
      · obtain rfl := Option.some.inj hcleared
        exact Operation.operands_withArguments_set harguments _ rfl
      · cases hcleared

theorem keeps_clear (site : MemorySite) : Work.Keeps Sealed (clear site) := by
  intro workspace sealed
  refine runs_bind_instruction (fun entry hplaced => ?_) fun _ => sealed
  split
  · exact runs_pure sealed
  · rename_i operation hcleared
    exact runs_overwrite sealed hplaced (operands_of_cleared? hcleared)
      fun _ => keeps_recordChange.bind fun _ => keeps_pure true

theorem keeps_run (plan : VolatilePlan) : Work.Keeps Sealed (run plan) :=
  keeps_get.bind fun _ => keeps_anySite fun _ site => keeps_clear site

end VolatileOperator

namespace SemaphoreOperator

theorem keeps_valueFor {invariant : Program → Prop} (plan : SemaphorePlan) (request : Nat) :
    Work.Keeps invariant (valueFor plan request) := by
  unfold valueFor
  extract_lets rest
  have hrest : ∀ value, Work.Keeps invariant (rest value) := by
    intro value
    simp only [rest]
    split
    · exact (keeps_warn _).bind fun _ => keeps_pure _
    · exact keeps_pure _
  split
  · exact hrest _
  · exact (keeps_warn _).bind fun _ => hrest _

theorem keeps_setValue (site : CallSite) (value : Nat) :
    Work.Keeps Sealed (setValue site value) := by
  intro workspace sealed
  unfold setValue
  split
  · rename_i index hindex
    split
    · exact keeps_skip _ workspace sealed
    · refine runs_bind_instruction (fun entry hplaced => ?_) fun _ => sealed
      split
      · exact runs_pure sealed
      · rename_i arguments harguments
        split
        · exact runs_pure sealed
        · exact runs_overwrite sealed hplaced
            (Operation.operands_withArguments_set harguments index rfl)
            fun _ => (keeps_markEdited _).bind fun _ => keeps_recordChange.bind fun _ =>
              keeps_pure true
  · exact runs_pure sealed

theorem keeps_run (plan : SemaphorePlan) : Work.Keeps Sealed (run plan) := by
  unfold run
  split
  · exact keeps_skip _
  · exact (keeps_query _).bind fun _ => keeps_anyCall fun request site _ =>
      (keeps_valueFor plan request).bind fun value => keeps_setValue site value

end SemaphoreOperator

/-! ## Removing lock pairs

The sides are scheduled first, then removed, and then accounted for; only the second of these loops
touches the program. -/

namespace LockOperator

theorem keeps_removeSite (site : CallSite) (family : LockFamily) :
    Work.Keeps Sealed (removeSite site family) := by
  refine (keeps_isUntouched name site).bind fun untouched => ?_
  split
  · exact keeps_pure false
  · extract_lets rest
    have hrest : ∀ uses, Work.Keeps Sealed (rest uses) := by
      intro uses
      simp only [rest]
      split
      · exact keeps_skip _
      · exact (keeps_edit (site.keeps_remove statusWidth true)).bind fun _ =>
          (keeps_markEdited _).bind fun _ => keeps_pure true
    split
    · exact hrest 0
    · exact (keeps_query _).bind hrest

theorem keeps_remove (index : PairIndex) (plan : LockPlan) :
    Work.Keeps Sealed (remove index plan) := by
  refine (keeps_foldlM (fun address _ removals =>
    keeps_of_noted fun _ => runs_schedule_noted plan.addressing removals address) _).bind
      fun removals => ?_
  -- the first loop only notes; now the scheduled sides are removed
  refine (keeps_foldlM (fun listed _ removed => ?_) _).bind fun removed => ?_
  · refine (keeps_removeSite listed.1 listed.2).bind fun answer => ?_
    split <;> exact keeps_pure _
  · refine (keeps_forM fun listed _ => ?_).bind fun _ => keeps_pure _
    dsimp only
    split
    · exact keeps_record _
    · exact keeps_pure _

end LockOperator

end ConcurrencyFaults
