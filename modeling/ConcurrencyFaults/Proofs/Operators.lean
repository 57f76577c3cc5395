import ConcurrencyFaults.Operator
import ConcurrencyFaults.Proofs.Arena.Commands
import ConcurrencyFaults.Proofs.Operators.Accesses
import ConcurrencyFaults.Proofs.Operators.Calls
import ConcurrencyFaults.Proofs.Operators.Locks

/-!
# What every operator keeps

A run starts from any workspace, with whatever marks and journal earlier runs have left in the
ledger, and with any plan.  It keeps a program consistent and its blocks terminated, even if it is
stopped halfway.  What can stop it lies in the program it is given: a call that names a function
which does not exist, or a fence whose result is read.  Without these, runs and reports always
answer.

What one request of an operator upholds is shown in `Operators/`, operator by operator.  Here the
operators are put together (`runs_run`, `runs_report`), and what each run upholds is read in two
ways: as block termination, which also holds of a run that was stopped, and as the answer that a
program without offending calls and fences cannot withhold.
-/

namespace ConcurrencyFaults

open Program

/-! ## Programs that stop no operator

Whether a program is one of these can be decided by looking at its listed instructions. -/

instance (operation : Operation) : Decidable operation.IsFence :=
  decidable_of_iff ((FenceOperator.fence? operation).isSome) <| by
    cases operation <;> simp [FenceOperator.fence?, Operation.IsFence]

/-- It is enough to look at the listed instructions. -/
theorem Program.Consistent.answerable_iff {program : Program} (consistent : program.Consistent) :
    program.Answerable ↔ ∀ handle ∈ program.handles, ∀ entry ∈ program.placed? handle,
      (∀ target ∈ entry.instruction.operation.directCallee?, (program.function? target).isSome) ∧
        (entry.instruction.operation.IsFence → ∀ reader ∈ program.handles,
          ∀ found ∈ program.placed? reader, found.instruction.operation.useCount handle = 0) := by
  rw [← consistent.forall_placed_iff]
  constructor
  · intro answerable handle entry hplaced
    refine ⟨fun target htarget => ?_, fun hfence reader _ found hfound => ?_⟩
    · exact Option.isSome_iff_exists.mpr
        (answerable.calleesExist handle entry target hplaced htarget)
    · exact answerable.fencesUnread handle reader found ⟨entry, hplaced, hfence⟩ hfound
  · intro hall
    constructor
    · intro handle entry target hplaced htarget
      exact Option.isSome_iff_exists.mp ((hall handle entry hplaced).1 target htarget)
    · rintro fence reader found ⟨entry, hplaced, hfence⟩ hfound
      have hreaders := (hall fence entry hplaced).2 hfence
      exact consistent.forall_placed_iff.mpr hreaders reader found hfound

namespace Operator

variable {workspace : Workspace}

/-! ## One run

There is one lemma for the runs and one for the reports, each with a case for every operator. -/

theorem runs_run (consistent : workspace.program.Consistent) (operator : Operator)
    (oracle : AliasOracle) :
    Runs (operator.run oracle) workspace
      (fun _ after => Upheld workspace.program after.program) (Refusal workspace.program) := by
  cases operator with
  | lock plan => exact LockOperator.runs_run consistent plan oracle
  | fence plan => exact FenceOperator.runs_run consistent plan
  | atomic plan => exact AtomicOperator.runs_run consistent plan
  | volatile plan => exact VolatileOperator.runs_run consistent plan
  | semaphore plan => exact SemaphoreOperator.runs_run consistent plan
  | join plan => exact JoinOperator.runs_run consistent plan
  | signal plan => exact SignalOperator.runs_run consistent plan
  | wait plan => exact WaitOperator.runs_run consistent plan
  | yield plan => exact YieldOperator.runs_run consistent plan

theorem runs_report (consistent : workspace.program.Consistent) (operator : Operator)
    (oracle : AliasOracle) :
    Runs (operator.report oracle) workspace
      (fun _ after => after.program = workspace.program) (Refusal workspace.program) := by
  cases operator with
  | lock plan => exact LockOperator.runs_report consistent plan oracle
  | fence plan => exact FenceOperator.runs_report plan
  | atomic plan => exact AtomicOperator.runs_report consistent plan
  | volatile plan => exact VolatileOperator.runs_report plan
  | semaphore plan => exact SemaphoreOperator.runs_report consistent plan
  | join plan => exact JoinOperator.runs_report consistent plan
  | signal plan => exact SignalOperator.runs_report consistent plan
  | wait plan => exact WaitOperator.runs_report consistent plan
  | yield plan => exact YieldOperator.runs_report consistent plan

/-- On a program that stops no operator, every run answers. -/
theorem runs_run_answerable (consistent : workspace.program.Consistent)
    (answerable : workspace.program.Answerable) (operator : Operator) (oracle : AliasOracle) :
    Runs (operator.run oracle) workspace
      (fun _ after => Upheld workspace.program after.program) fun _ _ => False :=
  (runs_run consistent operator oracle).imp (fun _ _ hupheld => hupheld)
    fun _ _ hrefusal => hrefusal.2 answerable

/-! ## Block termination -/

/-- A terminated program is terminated after a run, whether the run answered or was stopped. -/
theorem terminated_after_run (consistent : workspace.program.Consistent)
    (terminated : workspace.program.Terminated) (operator : Operator) (oracle : AliasOracle) :
    Runs (operator.run oracle) workspace
      (fun _ after => after.program.Consistent ∧ after.program.Terminated)
      (fun _ after => after.program.Consistent ∧ after.program.Terminated) := by
  refine (runs_run consistent operator oracle).imp ?_ ?_
  · exact fun _ _ hupheld => ⟨hupheld.consistent, hupheld.terminated terminated⟩
  · rintro _ _ ⟨hupheld, -⟩
    exact ⟨hupheld.consistent, hupheld.terminated terminated⟩

/-- A fence and a join that may unwind. -/
def joinAfterFence : Program :=
  Command.run [.declare "pthread_join" .status, .addFunction "main" .void [],
    .addBlock 1 "entry", .addBlock 1 "joined", .addBlock 1 "failed",
    .push 1 0 (.ofOperation (.fence .sequentiallyConsistent .crossThread)),
    .push 1 0 (.ofOperation (.invoke (.direct 0) [.parameter 0, .undefined] .status 1 2)),
    .push 1 1 (.ofOperation (.ret none)), .push 1 2 (.ofOperation .unreachable)]
    { name := "join" }

theorem consistent_joinAfterFence : joinAfterFence.Consistent :=
  Command.consistent_run (Command.consistent_empty "join") _

/-- The join ends its block; the sleep that takes its place is followed by a branch. -/
theorem terminated_after_sleep :
    Runs ((Operator.join { change := some (.sleep 3), positions := [0] }).run .identity)
      { program := joinAfterFence }
      (fun _ after => after.program.Consistent ∧ after.program.Terminated)
      (fun _ after => after.program.Consistent ∧ after.program.Terminated) :=
  @terminated_after_run { program := joinAfterFence } consistent_joinAfterFence (by decide) _ _

/-! ## Answers -/

/-- If calls name existing functions and no fence is read, no run and no report is stopped. -/
theorem run_and_report_answer (consistent : workspace.program.Consistent)
    (calleesExist : workspace.program.CalleesExist)
    (fencesUnread : workspace.program.FencesUnread) (operator : Operator) (oracle : AliasOracle) :
    (∃ modified after, operator.run oracle workspace = .ok modified after) ∧
      ∃ report after, operator.report oracle workspace = .ok report after := by
  have answerable : workspace.program.Answerable := ⟨calleesExist, fencesUnread⟩
  have hnever : ∀ problem after, ¬ Refusal workspace.program problem after :=
    fun _ _ hrefusal => hrefusal.2 answerable
  constructor
  · have hruns := (runs_run consistent operator oracle).imp (fun _ _ h => h) hnever
    obtain ⟨modified, after, hrun, -⟩ := hruns.exists_ok
    exact ⟨modified, after, hrun⟩
  · have hruns := (runs_report consistent operator oracle).imp (fun _ _ h => h) hnever
    obtain ⟨report, after, hreport, -⟩ := hruns.exists_ok
    exact ⟨report, after, hreport⟩

theorem answerable_joinAfterFence : joinAfterFence.Answerable :=
  consistent_joinAfterFence.answerable_iff.mpr (by decide)

/-- A position that is asked for twice and one that is out of range do not stop a run. -/
theorem answer_of_repeated_position :
    (∃ modified after,
      (Operator.fence { change := some .remove, positions := [0, 0, 7] }).run .identity
        { program := joinAfterFence } = .ok modified after) ∧
      ∃ report after,
        (Operator.fence { change := some .remove, positions := [0, 0, 7] }).report .identity
          { program := joinAfterFence } = .ok report after :=
  @run_and_report_answer { program := joinAfterFence } consistent_joinAfterFence
    answerable_joinAfterFence.calleesExist answerable_joinAfterFence.fencesUnread _ _

end Operator

end ConcurrencyFaults
