import ConcurrencyFaults.Proofs.Arena.Commands

/-!
# Refused edits

Some edits store an instruction or rewrite operands before they ask the last question that could be
refused.  On a consistent program those later questions are all answered: what lists an anchor still
lists it after a new slot is filled, and a result whose uses were replaced has none.  So an edit is
refused by its first look at its arguments or not at all, and a refusal hands back the program as it
was, with its slots and their generations, its free slots and its lists of handles.

`Edit.RefusedFor` says this of one edit and names the problem that it is refused for.

The equations of `Edits.lean` do the work: one for every way in which an edit can end.  All edits of
one handle are refused for the same reason, so `refusedFor_handleProblem?` takes the two equations
of such an edit and is applied six times; `addBlock`, `push` and `erase` have a question of their
own to ask.
-/

namespace ConcurrencyFaults

/-! ## Refusals -/

/-- An edit is refused exactly for the given problem, and then nothing has changed. -/
structure Edit.RefusedFor {Answer : Type} (edit : Edit Answer) (program : Program)
    (problem? : Option EditError) : Prop where
  refused_iff : ∀ problem, (∃ after, edit program = .error problem after) ↔ problem? = some problem
  unchanged : ∀ problem after, edit program = .error problem after → after = program

namespace Edit.RefusedFor

variable {Answer : Type} {edit : Edit Answer} {program : Program}

theorem of_answered (hanswered : ∃ answer after, edit program = .ok answer after) :
    edit.RefusedFor program none := by
  obtain ⟨answer, after, hanswer⟩ := hanswered
  constructor
  · simp [hanswer]
  · simp [hanswer]

theorem of_refused {problem : EditError} (hrefused : edit program = .error problem program) :
    edit.RefusedFor program (some problem) := by
  constructor
  · simp [hrefused]
  · rintro problem after herror
    rw [hrefused] at herror
    cases herror
    rfl

end Edit.RefusedFor

namespace Program

variable {program : Program} {handle : Handle}

/-! ## Problems of arguments

What may be wrong with the arguments of an edit is asked of the program as it was before.  An edit
has its problem even where it asks only after some changes of its own. -/

/-- A function may not be there. -/
def functionProblem? (program : Program) (function : FunctionId) : Option EditError :=
  if (program.function? function).isSome then none else some (.unknownFunction function)

/-- Of a function that is there, a block may not. -/
def blockProblem? (program : Program) (function : FunctionId) (index : BlockId) :
    Option EditError :=
  (program.functionProblem? function).or <|
    if (program.block? function index).isSome then none else some (.unknownBlock function index)

/-- A handle may be stale. -/
def handleProblem? (program : Program) (handle : Handle) : Option EditError :=
  if program.isLive handle then none else some (.staleHandle handle)

/-- The result of a live instruction may still be read. -/
def useProblem? (program : Program) (handle : Handle) : Option EditError :=
  match program.useCount handle with
  | .error problem => some problem
  | .ok 0 => none
  | .ok uses => some (.hasUses handle uses)

/-- An edit that answers for a live handle and refuses a stale one has no other problem. -/
theorem refusedFor_handleProblem? {Answer : Type} {edit : Edit Answer}
    (hlive : ∀ entry, program.placed? handle = some entry →
      ∃ answer after, edit program = .ok answer after)
    (hstale : program.placed? handle = none →
      edit program = .error (.staleHandle handle) program) :
    edit.RefusedFor program (program.handleProblem? handle) := by
  unfold handleProblem? isLive
  cases hplaced : program.placed? handle with
  | none => exact .of_refused (hstale hplaced)
  | some entry => exact .of_answered (hlive entry hplaced)

theorem refusedFor_addBlock (function : FunctionId) (label : String) :
    (addBlock function label).RefusedFor program (program.functionProblem? function) := by
  unfold functionProblem?
  cases hfunction : program.function? function with
  | none => exact .of_refused (addBlock_of_unknown hfunction label)
  | some found => exact .of_answered ⟨_, _, addBlock_of_function? hfunction label⟩

theorem refusedFor_push (function : FunctionId) (index : BlockId) (instruction : Instruction) :
    (push function index instruction).RefusedFor program
      (program.blockProblem? function index) := by
  unfold blockProblem? functionProblem?
  cases hfunction : program.function? function with
  | none => exact .of_refused (push_of_unknownFunction hfunction index instruction)
  | some found =>
      cases hblock : program.block? function index with
      | none => exact .of_refused (push_of_unknownBlock hfunction hblock instruction)
      | some block => exact .of_answered ⟨_, _, push_of_block? hblock instruction⟩

namespace Consistent

variable (consistent : program.Consistent)
include consistent

theorem refusedFor_insertBefore (anchor : Handle) (instruction : Instruction) :
    (insertBefore anchor instruction).RefusedFor program (program.handleProblem? anchor) :=
  refusedFor_handleProblem?
    (fun _ hplaced => ⟨_, _, insertBefore_of_placed? consistent hplaced instruction⟩)
    fun hstale => insertBefore_of_stale hstale instruction

theorem refusedFor_insertRelative (base : Handle) (instruction : Instruction) (steps : Nat) :
    (insertRelative base instruction steps).RefusedFor program (program.handleProblem? base) := by
  refine refusedFor_handleProblem? (fun entry hplaced => ?_) fun hstale =>
    insertRelative_of_stale hstale instruction steps
  obtain ⟨_, _, _, -, -, hanswer⟩ :=
    insertRelative_of_placed? consistent hplaced instruction steps
  exact ⟨_, _, hanswer⟩

theorem refusedFor_replaceAllUses (handle : Handle) (value : Operand) :
    (replaceAllUses handle value).RefusedFor program (program.handleProblem? handle) := by
  refine refusedFor_handleProblem? (fun entry hplaced => ?_) fun hstale =>
    replaceAllUses_of_stale hstale value
  obtain ⟨_, hanswer⟩ := replaceAllUses_of_placed? consistent hplaced value
  exact ⟨_, _, hanswer⟩

theorem refusedFor_erase (handle : Handle) :
    (erase handle).RefusedFor program (program.useProblem? handle) := by
  unfold useProblem?
  cases hplaced : program.placed? handle with
  | none =>
      rw [useCount_of_stale hplaced]
      exact .of_refused (erase_of_stale hplaced)
  | some entry =>
      obtain ⟨uses, huses⟩ := exists_useCount consistent hplaced
      rw [huses]
      cases uses with
      | zero => exact .of_answered ⟨_, _, erase_of_unused hplaced huses⟩
      | succ uses => exact .of_refused (erase_of_used huses (Nat.succ_pos uses))

theorem refusedFor_eraseOrZero (handle : Handle) (width : Nat) (signed : Bool) :
    (eraseOrZero handle width signed).RefusedFor program (program.handleProblem? handle) := by
  refine refusedFor_handleProblem? (fun entry hplaced => ?_) fun hstale =>
    eraseOrZero_of_stale hstale width signed
  obtain ⟨_, hanswer⟩ := eraseOrZero_of_placed? consistent hplaced width signed
  exact ⟨_, _, hanswer⟩

theorem refusedFor_replaceWith (old : Handle) (new : Instruction) :
    (replaceWith old new).RefusedFor program (program.handleProblem? old) :=
  refusedFor_handleProblem?
    (fun _ hplaced => ⟨_, _, replaceWith_of_placed? consistent hplaced new⟩)
    fun hstale => replaceWith_of_stale hstale new

end Consistent

/-- Whatever its arguments are, an edit of a consistent program that is refused has changed nothing,
and it is refused for a problem of its arguments alone. -/
theorem edits_refusedFor (consistent : program.Consistent) :
    (∀ function label,
      (addBlock function label).RefusedFor program (program.functionProblem? function)) ∧
    (∀ function index instruction,
      (push function index instruction).RefusedFor program
        (program.blockProblem? function index)) ∧
    (∀ anchor instruction,
      (insertBefore anchor instruction).RefusedFor program (program.handleProblem? anchor)) ∧
    (∀ base instruction steps,
      (insertRelative base instruction steps).RefusedFor program (program.handleProblem? base)) ∧
    (∀ handle value,
      (replaceAllUses handle value).RefusedFor program (program.handleProblem? handle)) ∧
    (∀ handle, (erase handle).RefusedFor program (program.useProblem? handle)) ∧
    (∀ handle width signed,
      (eraseOrZero handle width signed).RefusedFor program (program.handleProblem? handle)) ∧
    ∀ old new, (replaceWith old new).RefusedFor program (program.handleProblem? old) :=
  ⟨refusedFor_addBlock, refusedFor_push, consistent.refusedFor_insertBefore,
    consistent.refusedFor_insertRelative, consistent.refusedFor_replaceAllUses,
    consistent.refusedFor_erase, consistent.refusedFor_eraseOrZero,
    consistent.refusedFor_replaceWith⟩

/-- A result that a call reads twice, in front of a slot that is free. -/
@[irreducible] def readTwice : Program :=
  Command.run [.addFunction "main" .void [], .addBlock 0 "entry",
    .push 0 0 (.ofOperation (.other "work" [] .pointer)),
    .push 0 0 (.ofOperation (.call (.indirect (.result ⟨0, 0⟩)) [.result ⟨0, 0⟩] .void)),
    .push 0 0 (.ofOperation .unreachable), .erase ⟨2, 0⟩] { name := "readTwice" }

/-- Refused are an unknown block, a stale handle and a result that is read. -/
theorem edits_refusedFor_readTwice :
    (push 0 1 (.ofOperation .unreachable)).RefusedFor readTwice (some (.unknownBlock 0 1)) ∧
    (replaceWith ⟨2, 0⟩ (.ofOperation .unreachable)).RefusedFor readTwice
      (some (.staleHandle ⟨2, 0⟩)) ∧
    (erase ⟨0, 0⟩).RefusedFor readTwice (some (.hasUses ⟨0, 0⟩ 2)) := by
  have consistent : readTwice.Consistent := by
    unfold readTwice
    exact Command.consistent_run (Command.consistent_empty "readTwice") _
  obtain ⟨-, hpush, -, -, -, herase, -, hreplace⟩ := edits_refusedFor consistent
  have hblock : readTwice.blockProblem? 0 1 = some (.unknownBlock 0 1) := by decide +kernel
  have hstale : readTwice.handleProblem? ⟨2, 0⟩ = some (.staleHandle ⟨2, 0⟩) := by decide +kernel
  have huses : readTwice.useProblem? ⟨0, 0⟩ = some (.hasUses ⟨0, 0⟩ 2) := by decide +kernel
  exact ⟨hblock ▸ hpush 0 1 _, hstale ▸ hreplace ⟨2, 0⟩ _, huses ▸ herase ⟨0, 0⟩⟩

end Program

end ConcurrencyFaults
