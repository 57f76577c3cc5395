import ConcurrencyFaults.Proofs.Closed.Changes
import ConcurrencyFaults.Proofs.Keeping

/-!
# Edits of sealed programs

Removing instructions keeps a program sealed without further ado: an instruction is erased only if
it is unused, or after its uses became a constant.  Edits that bring in an instruction keep it
sealed as long as what they bring in reads local operands, in particular if it reads no results at
all (`Operation.ReadsNothing`).  An edit that is refused leaves a sealed program, too.

## Strategy

An edit either meets a stale handle and is refused, or is one of the changes of `Changes.lean` at
the entry that it finds.  So each proof looks the handle up and goes by cases on the result.  There
are two forms of a lemma about bringing in an instruction: `runs_…` for one that is welcome where it
goes (`Welcomes`), and `keeps_…` for one that reads nothing and is welcome anywhere.
-/

namespace ConcurrencyFaults

/-- No operand is the result of an instruction. -/
def Operation.ReadsNothing (operation : Operation) : Prop :=
  ∀ operand ∈ operation.operands, operand.handle? = none

namespace Program

variable {program : Program} {handle : Handle} {instruction : Instruction}

/-! ## Bringing in instructions

What goes where `handle` is must be welcome there.  Nothing is asked of a stale handle. -/

/-- The instruction reads what is local where `handle` is. -/
def Welcomes (program : Program) (handle : Handle) (operation : Operation) : Prop :=
  ∀ entry, program.placed? handle = some entry →
    ∀ operand ∈ operation.operands, program.Local entry.function operand

theorem welcomes_of_readsNothing {operation : Operation} (hreads : operation.ReadsNothing)
    (program : Program) (handle : Handle) : program.Welcomes handle operation :=
  fun _ _ operand hoperand => Local.of_handle?_eq_none (hreads operand hoperand)

theorem welcomes_of_functionOf? {function : FunctionId}
    (hhandle : program.functionOf? handle = some function) {operation : Operation}
    (hlocal : ∀ operand ∈ operation.operands, program.Local function operand) :
    program.Welcomes handle operation := by
  intro entry hplaced
  rw [functionOf?_of_placed? hplaced] at hhandle
  exact Option.some.inj hhandle ▸ hlocal

/-- An instruction welcomes what it reads itself, and whatever is no result. -/
theorem Sealed.welcomes (sealed : program.Sealed) {entry : Placed}
    (hplaced : program.placed? handle = some entry) {operation : Operation}
    (hreads : ∀ operand ∈ operation.operands,
      operand ∈ entry.instruction.operation.operands ∨ operand.handle? = none) :
    program.Welcomes handle operation := by
  intro found hfound operand hoperand
  obtain rfl : entry = found := Option.some.inj (hplaced.symm.trans hfound)
  rcases hreads operand hoperand with hmem | hnone
  · exact sealed.closed handle entry hplaced operand hmem
  · exact Local.of_handle?_eq_none hnone

theorem runs_insertBefore (sealed : program.Sealed)
    (hwelcome : program.Welcomes handle instruction.operation) :
    Runs (insertBefore handle instruction) program (fun _ => Sealed) (fun _ => Sealed) := by
  cases hplaced : program.placed? handle with
  | none => exact runs_of_error (insertBefore_of_stale hplaced instruction) sealed
  | some entry =>
      exact runs_of_ok (insertBefore_of_placed? sealed.toConsistent hplaced instruction)
        (sealed.insertAhead hplaced (hwelcome entry hplaced))

/-- Besides, only the old instruction is gone. -/
theorem runs_replaceWith (sealed : program.Sealed)
    (hwelcome : program.Welcomes handle instruction.operation) :
    Runs (replaceWith handle instruction) program
      (fun _ after => after.Sealed ∧ program.Kept after [handle]) (fun _ => Sealed) := by
  cases hplaced : program.placed? handle with
  | none => exact runs_of_error (replaceWith_of_stale hplaced instruction) sealed
  | some entry =>
      exact runs_of_ok (replaceWith_of_placed? sealed.toConsistent hplaced instruction)
        ⟨sealed.substituteEntry_nextHandle hplaced (hwelcome entry hplaced),
          kept_substituteEntry sealed.toConsistent hplaced instruction _⟩

theorem runs_setOperation (sealed : program.Sealed) {operation : Operation}
    (hwelcome : program.Welcomes handle operation) :
    Runs (setOperation handle operation) program (fun _ => Sealed) (fun _ => Sealed) := by
  cases hplaced : program.placed? handle with
  | none => exact runs_of_error (changeInstruction_of_stale hplaced _) sealed
  | some entry =>
      exact runs_of_ok (changeInstruction_of_placed? hplaced _)
        (sealed.modifyInstruction hplaced (hwelcome entry hplaced))

theorem keeps_insertBefore (handle : Handle) (hreads : instruction.operation.ReadsNothing) :
    Keeps Sealed (insertBefore handle instruction) :=
  fun program sealed => runs_insertBefore sealed (welcomes_of_readsNothing hreads program handle)

theorem keeps_replaceWith (handle : Handle) (hreads : instruction.operation.ReadsNothing) :
    Keeps Sealed (replaceWith handle instruction) :=
  fun program sealed =>
    (runs_replaceWith sealed (welcomes_of_readsNothing hreads program handle)).weaken
      fun _ _ hafter => hafter.1

theorem keeps_setOperation (handle : Handle) {operation : Operation}
    (hreads : operation.ReadsNothing) : Keeps Sealed (setOperation handle operation) :=
  fun program sealed => runs_setOperation sealed (welcomes_of_readsNothing hreads program handle)

/-! ## Insertions alone

Some operators insert what they captured at the start of their run, and operands that they inserted
themselves.  As long as nothing is erased, both stay local. -/

/-- A sealed program in which everything is left that was there at the start. -/
structure Extended (start program : Program) : Prop extends program.Sealed where
  kept : start.Kept program []

theorem Extended.refl (sealed : program.Sealed) : program.Extended program :=
  ⟨sealed, Kept.refl sealed.toConsistent []⟩

theorem Extended.insertAhead {start : Program} (extended : start.Extended program) {entry : Placed}
    (hplaced : program.placed? handle = some entry)
    (hlocal : ∀ operand ∈ instruction.operation.operands, program.Local entry.function operand) :
    start.Extended
        (program.insertEntry ⟨instruction, entry.function, entry.block⟩ (ahead handle)) ∧
      program.Kept
        (program.insertEntry ⟨instruction, entry.function, entry.block⟩ (ahead handle)) [] := by
  have consistent := extended.toConsistent
  have hkept := kept_insertEntry consistent (consistent.insertAhead hplaced instruction)
  exact ⟨⟨extended.toSealed.insertAhead hplaced hlocal, extended.kept.trans hkept (by simp)⟩, hkept⟩

/-- What is inserted next may read what was inserted before. -/
theorem Extended.runs_insertBefore {start : Program} {refused : EditError → Program → Prop}
    (extended : start.Extended program) {function : FunctionId}
    (hanchor : program.functionOf? handle = some function)
    (hlocal : ∀ operand ∈ instruction.operation.operands, program.Local function operand) :
    Runs (insertBefore handle instruction) program
      (fun inserted after => start.Extended after ∧ program.Kept after [] ∧
        after.functionOf? inserted = some function) refused := by
  obtain ⟨entry, hplaced, rfl⟩ := functionOf?_eq_some_iff.mp hanchor
  obtain ⟨hextended, hkept⟩ := extended.insertAhead hplaced hlocal
  refine runs_of_ok (insertBefore_of_placed? extended.toConsistent hplaced instruction)
    ⟨hextended, hkept, ?_⟩
  rw [functionOf?_insertEntry extended.toFreeListExact, Function.update_self]

/-! ## Removing instructions

Erasing asks for a result that is unused.  Zeroing makes it unused: a constant takes the place of
all uses. -/

theorem keeps_erase (handle : Handle) : Keeps Sealed (erase handle) := by
  intro program sealed
  cases hplaced : program.placed? handle with
  | none => exact runs_of_error (erase_of_stale hplaced) sealed
  | some entry =>
      obtain ⟨uses, huses⟩ := exists_useCount sealed.toConsistent hplaced
      rcases Nat.eq_zero_or_pos uses with rfl | hpos
      · exact runs_of_ok (erase_of_unused hplaced huses) (sealed.eraseEntry hplaced huses)
      · exact runs_of_error (erase_of_used huses hpos) sealed

theorem local_zeroed {function : FunctionId} (width : Nat) (signed : Bool) :
    program.Local function (zeroed width signed) :=
  Local.of_handle?_eq_none rfl

theorem keeps_eraseOrZero (handle : Handle) (width : Nat) (signed : Bool) :
    Keeps Sealed (eraseOrZero handle width signed) := by
  intro program sealed
  cases hplaced : program.placed? handle with
  | none => exact runs_of_error (eraseOrZero_of_stale hplaced width signed) sealed
  | some entry =>
      obtain ⟨removal, hremoval⟩ :=
        eraseOrZero_of_placed? sealed.toConsistent hplaced width signed
      exact runs_of_ok hremoval (sealed.eraseEntry_rewrite hplaced (local_zeroed width signed) rfl)

end Program

/-! ## Call sites

A call is captured with its arguments, so what holds of the instruction at its handle holds of what
was captured. -/

theorem SiteForm.operands_operation (form : SiteForm) (target : FunctionId)
    (arguments : List Operand) (result : Ty) :
    (form.operation (.direct target) arguments result).operands = arguments := by
  cases form <;> simp [SiteForm.operation, Operation.operands, Callee.operands]

namespace CallSite

open Program

/-- The call is in its function, and its captured arguments are local there. -/
structure Grounded (site : CallSite) (program : Program) : Prop where
  function_eq : program.functionOf? site.handle = some site.function
  arguments : ∀ operand ∈ site.arguments, program.Local site.function operand

theorem operands_operation (site : CallSite) : site.operation.operands = site.arguments :=
  SiteForm.operands_operation ..

@[simp] theorem operands_asCall (site : CallSite) (arguments : List Operand) :
    (site.asCall arguments).operation.operands = arguments := by
  simp [asCall, Operation.operands, Callee.operands]

/-- In a closed program every call that is found is grounded. -/
theorem grounded_of_finds {search : CallSearch} {site : CallSite} {program : Program}
    (closed : program.Closed) (hfinds : search.Finds program site) : site.Grounded program := by
  obtain ⟨-, entry, hplaced, hfunction, hoperation⟩ :=
    placed_of_capture (CallSearch.capture_of_siteAt hfinds)
  refine ⟨functionOf?_eq_some_iff.mpr ⟨entry, hplaced, hfunction⟩, fun operand hoperand => ?_⟩
  rw [← operands_operation, ← hoperation] at hoperand
  exact hfunction ▸ closed site.handle entry hplaced operand hoperand

theorem Grounded.kept {site : CallSite} {before after : Program} (hgrounded : site.Grounded before)
    (hkept : before.Kept after []) : site.Grounded after :=
  ⟨hkept.functionOf? hgrounded.function_eq List.not_mem_nil, fun operand hoperand =>
    hkept.local (hgrounded.arguments operand hoperand) fun _ _ => List.not_mem_nil⟩

theorem keeps_branchToNormal (site : CallSite) : Keeps Sealed site.branchToNormal := by
  intro program sealed
  cases hform : site.form with
  | call => exact runs_of_ok (branchToNormal_of_call hform) sealed
  | invoke normal unwind =>
      cases hplaced : program.placed? site.handle with
      | none =>
          unfold branchToNormal
          simp only [hform]
          exact runs_of_error
            (bind_apply_of_error (Edit.query_apply_of_error (parent_of_stale hplaced)) _) sealed
      | some entry =>
          exact runs_of_ok (branchToNormal_of_invoke sealed.toConsistent hform hplaced)
            (sealed.pushBranch hplaced normal site.location)

theorem keeps_remove (site : CallSite) (width : Nat) (signed : Bool) :
    Keeps Sealed (site.remove width signed) :=
  (Edit.keeps_query _).bind fun _ => (keeps_branchToNormal site).bind fun _ =>
    keeps_eraseOrZero site.handle width signed

theorem keeps_replace (site : CallSite) {instruction : Instruction}
    (hreads : instruction.operation.ReadsNothing) : Keeps Sealed (site.replace instruction) :=
  (Edit.keeps_query _).bind fun _ => (keeps_branchToNormal site).bind fun _ =>
    keeps_replaceWith site.handle hreads

end CallSite

end ConcurrencyFaults
