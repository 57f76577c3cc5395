import ConcurrencyFaults.Operator.Condition
import ConcurrencyFaults.Operator.Join
import ConcurrencyFaults.Operator.Semaphore
import ConcurrencyFaults.Operator.Yield
import ConcurrencyFaults.Proofs.Requests

/-!
# Operators that change one call at a time

The operators on condition variables, joins, semaphores and yields search the program once and then
handle calls one by one.  For each way of handling a call this file shows that, started on an intact
call, it is not refused and settles that call alone; only the search itself may be refused.

The general part is `runs_searchCalls`: a handler that keeps to this turns a search into a run that
upholds the program.  What remains for an operator is to follow its handler statement by statement
with the lemmas on edits of intact calls.
-/

namespace ConcurrencyFaults

open Program Work

variable {site : CallSite} {workspace : Workspace} {refused : EditError → Workspace → Prop}

theorem runs_skip (consistent : workspace.program.Consistent) (message : String) :
    Runs (do
      Work.warn message
      return false : Work Bool) workspace (fun _ => Settled [site.handle] workspace) refused :=
  runs_bind_warn (runs_pure (Settled.of_record consistent _ _))

/-! ## Condition variables

Signals and waits share two handlers: a call is removed, or it is given another target. -/

namespace Condition

theorem runs_remove (consistent : workspace.program.Consistent)
    (hintact : site.Intact workspace.program) (pass : String) :
    Runs (remove pass site) workspace (fun _ => Settled [site.handle] workspace) refused := by
  obtain ⟨removal, after, hremove, hrevised⟩ := CallSite.remove_of_intact consistent hintact 32 true
  unfold remove
  refine runs_bind_edit hremove (runs_bind_markEdited (runs_bind_recordChange fun entry => ?_))
  exact runs_pure (Settled.of_marked hrevised (by simp) fun _ h => by simp [h])

theorem runs_retarget (consistent : workspace.program.Consistent)
    (hintact : site.Intact workspace.program) (pass : String) {replacement : Instruction}
    (message : String)
    (hexits : replacement.operation.exits? = site.form.exits?) :
    Runs (retarget pass site replacement message) workspace
      (fun _ => Settled [site.handle] workspace) refused := by
  obtain ⟨handle, after, hreplace, hrevised⟩ :=
    CallSite.replaceWith_of_intact consistent hintact hexits
  unfold retarget
  refine runs_bind_edit hreplace (runs_bind_markEdited (runs_bind_markEdited
    (runs_bind_recordChange fun entry => ?_)))
  exact runs_pure (Settled.of_marked hrevised (by simp) fun _ h => by simp [h])

theorem runs_declare_retarget (consistent : workspace.program.Consistent)
    (hintact : site.Intact workspace.program) (name : String) (parameters : List Ty)
    (pass : String) (arguments : List Operand) (result : Ty) (message : String) :
    Runs (do
      let target ← Work.update (·.getOrDeclare name .status parameters)
      retarget pass site (site.cloneWith target arguments result) message) workspace
      (fun _ => Settled [site.handle] workspace) refused := by
  have hdeclared := revised_getOrDeclare consistent name .status parameters
  refine runs_bind_update ((runs_retarget hdeclared.consistent
    (hintact.kept hdeclared.toKept List.not_mem_nil) pass message ?_).weaken ?_)
  · exact SiteForm.exits?_operation ..
  · intro _ after hsettled
    have hfirst : Settled [] workspace
        { workspace with program := (workspace.program.getOrDeclare name .status parameters).2 } :=
      Settled.of_kept hdeclared (fun _ h => h) []
    exact hfirst.trans hsettled

end Condition

namespace SignalOperator

theorem runs_apply (consistent : workspace.program.Consistent)
    (hintact : site.Intact workspace.program) (change : SignalChange) :
    Runs (SignalOperator.apply change site) workspace
      (fun _ => Settled [site.handle] workspace) refused := by
  unfold SignalOperator.apply
  split
  · exact runs_skip consistent _
  · cases change with
    | remove => exact Condition.runs_remove consistent hintact _
    | swap => exact Condition.runs_declare_retarget consistent hintact _ _ _ _ _ _

theorem runs_run (consistent : workspace.program.Consistent) (plan : SignalPlan) :
    Runs (run plan) workspace (fun _ after => Upheld workspace.program after.program)
      (Refusal workspace.program) := by
  unfold run
  cases plan.change with
  | none => exact runs_pure (Upheld.refl consistent)
  | some change =>
      have hsearch : ∀ ledger, Runs (do
          let found ← Work.query search.inProgram
          Work.anyCall name found plan.positions fun _ site => apply change site)
          { workspace with ledger }
          (fun _ after => Upheld workspace.program after.program) (Refusal workspace.program) :=
        fun ledger => @runs_searchCalls { workspace with ledger } _ _ _ _ consistent
          fun _ site state consistent hintact => runs_apply consistent hintact change
      dsimp only
      split
      · exact runs_bind_warn (hsearch _)
      · exact hsearch workspace.ledger

theorem runs_report (consistent : workspace.program.Consistent) (plan : SignalPlan) :
    Runs (report plan) workspace (fun _ after => after.program = workspace.program)
      (Refusal workspace.program) :=
  runs_reportCalls consistent name search plan.verbose

end SignalOperator

namespace WaitOperator

theorem runs_untime (consistent : workspace.program.Consistent)
    (hintact : site.Intact workspace.program) :
    Runs (untime site) workspace (fun _ => Settled [site.handle] workspace) refused := by
  unfold untime
  split
  · exact runs_skip consistent _
  · split
    · exact runs_skip consistent _
    · exact Condition.runs_declare_retarget consistent hintact _ _ _ _ _ _

private theorem exists_emit {program : Program} (consistent : program.Consistent) {anchor : Handle}
    {entry : Placed} (hplaced : program.placed? anchor = some entry) {operation : Operation}
    (hexits : operation.exits? = none) (location : Option Location) :
    ∃ after, insertBefore anchor { operation, location } program = .ok program.nextHandle after ∧
      program.Revised after [] ∧ after.placed? anchor = some entry := by
  obtain ⟨after, hinsert, hrevised, hlive, -⟩ := @exists_insertBefore program anchor entry
    consistent hplaced { operation, location } hexits
  exact ⟨after, hinsert, hrevised, hlive⟩

/-- The code that moves a field goes in front of any live instruction. -/
theorem exists_addToField {program : Program} (consistent : program.Consistent) {anchor : Handle}
    {entry : Placed} (hplaced : program.placed? anchor = some entry) (time : Operand) (field : Nat)
    (delta : Int) (location : Option Location) :
    ∃ handles after, addToField anchor time field delta location program = .ok handles after ∧
      program.Revised after [] ∧ after.placed? anchor = some entry := by
  obtain ⟨first, hpointer, hfirst, hplaced⟩ :=
    @exists_emit program consistent anchor entry hplaced (.fieldAddress time field) rfl location
  obtain ⟨second, hold, hsecond, hplaced⟩ := @exists_emit first hfirst.consistent anchor entry
    hplaced (.load (.result program.nextHandle) (.int 64) false .notAtomic .crossThread) rfl
    location
  obtain ⟨third, hsum, hthird, hplaced⟩ := @exists_emit second hsecond.consistent anchor entry
    hplaced (.binary .add (.result first.nextHandle) (.int 64 true delta) (.int 64)) rfl location
  obtain ⟨fourth, hstore, hfourth, hplaced⟩ := @exists_emit third hthird.consistent anchor entry
    hplaced (.store (.result program.nextHandle) (.result second.nextHandle) false .notAtomic
      .crossThread) rfl location
  refine ⟨[program.nextHandle, first.nextHandle, second.nextHandle, third.nextHandle], fourth, ?_,
    ((hfirst.trans hsecond (by simp)).trans hthird (by simp)).trans hfourth
    (by simp), hplaced⟩
  unfold addToField
  dsimp only
  rw [bind_apply_of_ok hpointer, bind_apply_of_ok hold, bind_apply_of_ok hsum,
    bind_apply_of_ok hstore]
  rfl

/-- Wherever the new code is asked for, it goes in front of a live instruction. -/
theorem placed?_of_anchor? {handles : List Handle} {function : Function}
    (consistent : workspace.program.Consistent) (hintact : site.Intact workspace.program)
    (hfunction : workspace.program.function? site.function = some function)
    {point : Option Nat} (hhandles : point ≠ none → handles = function.handles) {anchor : Handle}
    (hanchor : anchor? site handles point = some anchor) :
    ∃ entry, workspace.program.placed? anchor = some entry := by
  cases point with
  | none =>
      obtain rfl : site.handle = anchor := Option.some.inj hanchor
      obtain ⟨entry, hplaced, -⟩ := hintact.placed?
      exact ⟨entry, hplaced⟩
  | some point =>
      have hmem := List.mem_of_getElem? (show handles[point]? = some anchor from hanchor)
      rw [hhandles (by simp)] at hmem
      obtain ⟨entry, hplaced, -⟩ := consistent.placed_of_mem_function hfunction hmem
      exact ⟨entry, hplaced⟩

theorem runs_moveDeadline (consistent : workspace.program.Consistent)
    (hintact : site.Intact workspace.program) (seconds nanoseconds : Int) (point : Option Nat) :
    Runs (moveDeadline site seconds nanoseconds point) workspace
      (fun _ => Settled [site.handle] workspace) refused := by
  obtain ⟨entry, hplaced, hhere, -⟩ := hintact.placed?
  obtain ⟨function, hfunction, -⟩ := consistent.function_of_placed hplaced
  rw [hhere] at hfunction
  unfold moveDeadline
  split
  · exact runs_skip consistent _
  · split
    · rename_i time htime
      extract_lets rest
      have hrest : ∀ handles, (point ≠ none → handles = function.handles) →
          Runs (rest handles) workspace (fun _ => Settled [site.handle] workspace) refused := by
        intro handles hhandles
        simp only [rest]
        split
        · rename_i anchor hanchor
          -- eight instructions in front of the anchor, four for each field
          obtain ⟨target, hlive⟩ :=
            placed?_of_anchor? consistent hintact hfunction hhandles hanchor
          obtain ⟨firstHandles, first, hfirst, hfirstRevised, hlive⟩ :=
            exists_addToField consistent hlive time 0 seconds site.location
          obtain ⟨secondHandles, second, hsecond, hsecondRevised, hlive⟩ :=
            exists_addToField hfirstRevised.consistent hlive time 1 nanoseconds site.location
          obtain ⟨position, hposition⟩ := exists_position hsecondRevised.consistent hlive
          refine runs_bind_edit hfirst (runs_bind_edit hsecond (runs_bind_markAll
            (runs_bind_markEdited (runs_bind_query hposition
              (runs_bind_recordChange fun entry => runs_pure ?_)))))
          exact Settled.of_kept (hfirstRevised.trans hsecondRevised (by simp))
            (fun _ h => by simp [h]) _
        · exact runs_bind_record (runs_pure (Settled.of_record consistent _ _))
      split
      · exact hrest [] (by simp)
      · exact runs_bind_query (handlesOf_of_function? hfunction) (hrest _ fun _ => rfl)
    · exact runs_skip consistent _

theorem runs_apply (consistent : workspace.program.Consistent)
    (hintact : site.Intact workspace.program) (change : WaitChange) (request : Nat) :
    Runs (WaitOperator.apply change request site) workspace
      (fun _ => Settled [site.handle] workspace) refused := by
  cases change with
  | remove => exact Condition.runs_remove consistent hintact _
  | untime => exact runs_untime consistent hintact
  | timeout seconds nanoseconds points => exact runs_moveDeadline consistent hintact _ _ _

theorem runs_run (consistent : workspace.program.Consistent) (plan : WaitPlan) :
    Runs (run plan) workspace (fun _ after => Upheld workspace.program after.program)
      (Refusal workspace.program) := by
  unfold run
  cases plan.change with
  | none => exact runs_pure (Upheld.refl consistent)
  | some change =>
      exact runs_searchCalls consistent fun request site state consistent hintact =>
        runs_apply consistent hintact change request

theorem runs_report (consistent : workspace.program.Consistent) (plan : WaitPlan) :
    Runs (report plan) workspace (fun _ after => after.program = workspace.program)
      (Refusal workspace.program) :=
  runs_reportCalls consistent name search plan.verbose

end WaitOperator

/-! ## Semaphores

The value is decided first, with warnings, and then written over an argument of the call. -/

namespace SemaphoreOperator

theorem runs_valueFor (consistent : workspace.program.Consistent) (plan : SemaphorePlan)
    (request : Nat) :
    Runs (valueFor plan request) workspace (fun _ => Settled [] workspace) refused := by
  unfold valueFor
  extract_lets rest
  have hrest : ∀ value state, Settled [] workspace state →
      Runs (rest value) state (fun _ => Settled [] workspace) refused := by
    intro value state hsettled
    simp only [rest]
    split
    · exact runs_bind_warn (runs_pure
        (hsettled.trans (Settled.of_record hsettled.consistent _ [])))
    · exact runs_pure hsettled
  split
  · exact hrest _ _ (Settled.refl consistent [])
  · exact runs_bind_warn (hrest _ _ (Settled.of_record consistent _ []))

theorem runs_setValue (consistent : workspace.program.Consistent)
    (hintact : site.Intact workspace.program) (value : Nat) :
    Runs (setValue site value) workspace (fun _ => Settled [site.handle] workspace) refused := by
  obtain ⟨entry, hplaced, -, -⟩ := hintact
  have hnothing : Settled [site.handle] workspace workspace := Settled.refl consistent _
  unfold setValue
  split
  · rename_i index hindex
    split
    · exact runs_skip consistent _
    · refine runs_bind_query (instruction_of_placed? hplaced) ?_
      split
      · exact runs_pure hnothing
      · rename_i arguments harguments
        split
        · exact runs_pure hnothing
        · let changed := arguments.set index (.int 32 false value)
          have hshape : (entry.instruction.operation.withArguments changed).shape =
              entry.instruction.operation.shape :=
            Operation.shape_withArguments harguments List.length_set
          have hset := changeInstruction_of_placed? hplaced
            (·.withOperation (entry.instruction.operation.withArguments changed))
          have hrevised := @revised_modifyInstruction_of_shape workspace.program site.handle entry
            (·.withOperation (entry.instruction.operation.withArguments changed)) consistent
            hplaced hshape
          exact runs_bind_edit hset (runs_bind_markEdited (runs_bind_recordChange fun _ =>
            runs_pure (Settled.of_kept hrevised (fun _ h => by simp [h]) _)))
  · exact runs_pure hnothing

theorem runs_handler (consistent : workspace.program.Consistent)
    (hintact : site.Intact workspace.program) (plan : SemaphorePlan) (request : Nat) :
    Runs (do
      let value ← valueFor plan request
      setValue site value) workspace (fun _ => Settled [site.handle] workspace) refused := by
  refine (runs_valueFor consistent plan request).bind fun value after hvalue => ?_
  refine (runs_setValue hvalue.consistent (hvalue.intact hintact List.not_mem_nil) value).weaken ?_
  exact fun _ _ hset => hvalue.trans hset

theorem runs_run (consistent : workspace.program.Consistent) (plan : SemaphorePlan) :
    Runs (run plan) workspace (fun _ after => Upheld workspace.program after.program)
      (Refusal workspace.program) := by
  unfold run
  split
  · exact runs_bind_warn (runs_pure (Upheld.refl consistent))
  · exact runs_searchCalls consistent fun request site state consistent hintact =>
      runs_handler consistent hintact plan request

theorem runs_report (consistent : workspace.program.Consistent) (plan : SemaphorePlan) :
    Runs (report plan) workspace (fun _ after => after.program = workspace.program)
      (Refusal workspace.program) := by
  unfold report
  exact runs_bind_search consistent fun found _ => runs_reportSites _ _ _

end SemaphoreOperator

/-! ## Yields

A yield is erased only if nothing reads its result, so no uses have to be rewritten. -/

namespace YieldOperator

theorem runs_remove (consistent : workspace.program.Consistent)
    (hintact : site.Intact workspace.program) :
    Runs (remove site) workspace (fun _ => Settled [site.handle] workspace) refused := by
  obtain ⟨entry, hplaced, -, -⟩ := hintact.placed?
  obtain ⟨uses, huses⟩ := exists_useCount consistent hplaced
  unfold remove
  refine runs_bind_query huses ?_
  split
  · exact runs_skip consistent _
  · obtain rfl : uses = 0 := by omega
    obtain ⟨branch, between, instruction, after, hbranch, herase, hrevised⟩ :=
      CallSite.erase_of_intact consistent hintact huses
    refine runs_bind_edit hbranch (runs_bind_edit herase (runs_bind_markEdited
      (runs_bind_recordChange fun _ => runs_pure ?_)))
    exact Settled.of_marked hrevised (by simp) fun _ h => by simp [h]

theorem runs_run (consistent : workspace.program.Consistent) (plan : YieldPlan) :
    Runs (run plan) workspace (fun _ after => Upheld workspace.program after.program)
      (Refusal workspace.program) := by
  unfold run
  exact runs_searchCalls consistent fun _ site state consistent hintact =>
    runs_remove consistent hintact

theorem runs_report (consistent : workspace.program.Consistent) (plan : YieldPlan) :
    Runs (report plan) workspace (fun _ after => after.program = workspace.program)
      (Refusal workspace.program) :=
  runs_reportCalls consistent name search plan.verbose

end YieldOperator

/-! ## Joins

Unlike the others, this operator marks a join after it was handled, and whatever came of it. -/

namespace JoinOperator

theorem runs_remove (consistent : workspace.program.Consistent)
    (hintact : site.Intact workspace.program) :
    Runs (remove site) workspace (fun _ => Revises [site.handle] workspace) refused := by
  obtain ⟨removal, after, hremove, hrevised⟩ := CallSite.remove_of_intact consistent hintact 32 true
  unfold remove
  exact runs_bind_edit hremove (runs_bind_recordChange fun _ => runs_pure ⟨hrevised, fun _ h => h⟩)

/-- An unused join can give way to a sleep in front of it. -/
theorem exists_sleepBefore {program : Program} (consistent : program.Consistent)
    (hintact : site.Intact program) (hunused : program.useCount site.handle = .ok 0)
    {sleep : Instruction} (hexits : sleep.operation.exits? = none)
    (hreads : sleep.operation.useCount site.handle = 0) :
    ∃ handle after, sleepBefore site sleep program = .ok handle after ∧
      program.Revised after [site.handle] := by
  obtain ⟨entry, hplaced, -, hform⟩ := hintact.placed?
  have hfree := consistent.toFreeListExact
  have hinserted := revised_insertAhead consistent hplaced hexits
  have hlive := placed?_insertEntry_of_placed? hfree hplaced
    ⟨sleep, entry.function, entry.block⟩ (ahead site.handle)
  have hstill := @useCount_insertEntry program site.handle entry consistent hplaced hunused
    ⟨sleep, entry.function, entry.block⟩ hreads _ hinserted.consistent
  have hfirst := hinserted.mono (List.nil_subset [site.handle])
  unfold sleepBefore
  rw [bind_apply_of_ok (insertBefore_of_placed? consistent hplaced sleep)]
  cases hsite : site.form with
  | call =>
      rw [hsite] at hform
      dsimp only
      refine ⟨program.nextHandle, _, ?_, hfirst.trans
        (revised_eraseEntry hinserted.consistent hlive hform) fun _ hmem => Or.inl hmem⟩
      rw [bind_apply_of_ok (erase_of_unused hlive hstill)]
      rfl
  | invoke normal unwind =>
      rw [hsite] at hform
      dsimp only
      have hbranch := hinserted.consistent.insertAhead hlive
        { operation := .branch normal, location := site.location }
      refine ⟨program.nextHandle, _, ?_, hfirst.trans
        (revised_eraseEntry_branchAhead hinserted.consistent hlive hform
          (show normal ∈ [normal, unwind] by simp) site.location) fun _ hmem => Or.inl hmem⟩
      rw [bind_apply_of_ok (insertBefore_of_placed? hinserted.consistent hlive _),
        bind_apply_of_ok (erase_of_unused
          (placed?_insertEntry_of_placed? hinserted.consistent.toFreeListExact hlive _ _)
          (useCount_insertEntry hinserted.consistent hlive hstill rfl hbranch))]
      rfl

theorem runs_replaceWithSleep (consistent : workspace.program.Consistent)
    (hintact : site.Intact workspace.program) (seconds : Nat) :
    Runs (replaceWithSleep site seconds) workspace (fun _ => Revises [site.handle] workspace)
      refused := by
  obtain ⟨entry, hplaced, -, -⟩ := hintact.placed?
  obtain ⟨uses, huses⟩ := exists_useCount consistent hplaced
  unfold replaceWithSleep
  extract_lets isStandard rest
  have hrest : ∀ uses, (isStandard = true → workspace.program.useCount site.handle = .ok uses) →
      Runs (rest uses) workspace (fun _ => Revises [site.handle] workspace) refused := by
    intro uses huses
    simp only [rest]
    split
    · exact runs_bind_warn (runs_pure ⟨Revised.refl consistent _, fun _ h => h⟩)
    · obtain rfl : uses = 0 := by omega
      let declared := (workspace.program.getOrDeclare "sleep" .status [.status]).2
      have hdeclared : workspace.program.Revised declared [] :=
        revised_getOrDeclare consistent "sleep" .status [.status]
      -- declaring the sleep moves no instruction and adds no use
      have hsame : declared.placed? = workspace.program.placed? := placed?_getOrDeclare ..
      have hstill := hintact.kept hdeclared.toKept List.not_mem_nil
      let sleep : Instruction :=
        { operation := .call
            (.direct (workspace.program.getOrDeclare "sleep" .status [.status]).1)
            [.int 32 true seconds] .status
          location := site.location }
      have hreplaced : ∃ handle after,
          (if isStandard then sleepBefore site sleep else site.replace sleep) declared =
            .ok handle after ∧ declared.Revised after [site.handle] := by
        split
        · rename_i hstandard
          refine exists_sleepBefore hdeclared.consistent hstill ?_ rfl rfl
          rw [useCount_eq_zero_iff hdeclared.consistent (hsame ▸ hplaced), hsame]
          exact (useCount_eq_zero_iff consistent hplaced).mp (huses hstandard)
        · exact CallSite.replace_of_intact hdeclared.consistent hstill rfl
      obtain ⟨handle, after, hreplaced, hrevised⟩ := hreplaced
      refine runs_bind_update (runs_bind_edit hreplaced (runs_bind_markEdited
        (runs_bind_recordChange fun _ => runs_pure
          ⟨(hdeclared.mono (List.nil_subset _)).trans hrevised fun _ h => Or.inl h, ?_⟩)))
      intro other hmarked
      rw [Ledger.isEdited_record, Ledger.isEdited_markEdited_iff]
      exact Or.inr hmarked
  split
  · exact runs_bind_query huses (hrest uses fun _ => huses)
  · rename_i hother
    exact hrest 0 fun hstandard => absurd hstandard hother

/-- A join is marked as edited whatever became of it. -/
theorem runs_handler (consistent : workspace.program.Consistent)
    (hintact : site.Intact workspace.program) (change : JoinChange) :
    Runs (do
      let changed ← JoinOperator.apply change site
      Work.markEdited site.handle
      return changed) workspace (fun _ => Settled [site.handle] workspace) refused := by
  have happly : Runs (JoinOperator.apply change site) workspace
      (fun _ => Revises [site.handle] workspace) refused := by
    cases change with
    | remove => exact runs_remove consistent hintact
    | sleep seconds => exact runs_replaceWithSleep consistent hintact seconds
  refine happly.bind fun changed after hrevises => ?_
  refine runs_bind_markEdited (runs_pure (Settled.of_marked hrevises.revised (by simp) ?_))
  exact fun other hbefore => by simp [hrevises.edited other hbefore]

theorem runs_run (consistent : workspace.program.Consistent) (plan : JoinPlan) :
    Runs (run plan) workspace (fun _ after => Upheld workspace.program after.program)
      (Refusal workspace.program) := by
  unfold run
  cases plan.change with
  | none => exact runs_pure (Upheld.refl consistent)
  | some change =>
      dsimp only
      split
      · exact runs_bind_warn (runs_pure (Upheld.refl consistent))
      · exact runs_searchCalls consistent fun _ site state consistent hintact =>
          runs_handler consistent hintact change

theorem runs_report (consistent : workspace.program.Consistent) (plan : JoinPlan) :
    Runs (report plan) workspace (fun _ after => after.program = workspace.program)
      (Refusal workspace.program) :=
  runs_reportCalls consistent name (search plan) plan.verbose

end JoinOperator

end ConcurrencyFaults
